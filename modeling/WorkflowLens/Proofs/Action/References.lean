import Mathlib.Data.List.TakeWhile
import WorkflowLens.Action.Reference
import WorkflowLens.Proofs.Text.Places

/-!
# How references to repositories are written

Slashes and at-signs may stand in every part of a reference, so a text such as `a/b/c@d/e@f` can
be split in many ways.  Reading settles on one of them by looking for the owner, for the end of
the repository and for the ref, one after the other, and each of these searches could miss a split
that an earlier one has made impossible.

It does not.  Each reader is told by two facts: the parts that it gives make up the text, and it
gives some parts whenever the text has any.  For the second fact it is enough to follow the two
separators that every split has: the first slash after the first character leaves the at-sign
and the ref of any split behind it, and so does every step of the search for the repository.

* `IsOwner`: where the owner of a text ends.
* `splitRemote?_eq_some_iff`, `splitRepo?_eq_some_iff`: each search finds the first place after
  which the rest can be read.
* `splitRef?_sound`, `splitPath?_sound`, `splitRepo?_sound`, `splitRemote?_sound`: nothing is lost.
* `exists_splitRepo?_eq`, `exists_splitRemote?_eq`: no split is missed.
* `ofUses_eq_remote_iff`: the references to files of repositories are the results of the split.
* `ofUses_remote_spec`: which texts are references to repositories, and how their parts are
  written.
-/

namespace WorkflowLens.Reference

/-- A path as it is written after a repository. -/
def pathText : Option Text → Text
  | none => []
  | some path => '/' :: path

/-- What is written before the at-sign: a repository, with the path in it, if any. -/
def placeText (owner repo : Text) (path : Option Text) : Text :=
  owner ++ '/' :: repo ++ pathText path

/-! ## Where the owner ends -/

/-- The text before a slash and the text from it on, if there is no earlier one. -/
theorem span_slash {s : Text} (hs : ∀ c ∈ s, c ≠ '/') (t : Text) :
    (s ++ '/' :: t).takeWhile (· != '/') = s ∧
      (s ++ '/' :: t).dropWhile (· != '/') = '/' :: t := by
  have hall : ∀ c ∈ s, (c != '/') = true := fun c hc => bne_iff_ne.mpr (hs c hc)
  constructor
  · rw [List.takeWhile_append_of_pos hall]
    simp
  · rw [List.dropWhile_append_of_pos hall]
    rfl

/-- The owner of a text ends in front of the first slash after its first character. -/
structure IsOwner (owner after t : Text) : Prop where
  eq_append : t = owner ++ '/' :: after
  ne_nil : owner ≠ []
  slash_not_mem_tail : '/' ∉ owner.tail

/-- There is one owner at most. -/
theorem IsOwner.unique {owner owner' after after' t : Text} (h : IsOwner owner after t)
    (h' : IsOwner owner' after' t) : owner = owner' ∧ after = after' := by
  obtain ⟨rfl, hne, htail⟩ := h
  obtain ⟨heq, hne', htail'⟩ := h'
  obtain ⟨c, s, rfl⟩ := List.exists_cons_of_ne_nil hne
  obtain ⟨c', s', rfl⟩ := List.exists_cons_of_ne_nil hne'
  rw [List.cons_append, List.cons_append, List.cons.injEq] at heq
  obtain ⟨htake, hdrop⟩ := span_slash (s := s) (fun d hd => ne_of_mem_of_not_mem hd htail) after
  obtain ⟨htake', hdrop'⟩ :=
    span_slash (s := s') (fun d hd => ne_of_mem_of_not_mem hd htail') after'
  rw [heq.2] at htake hdrop
  refine ⟨?_, (List.cons.inj (hdrop.symm.trans hdrop')).2⟩
  rw [heq.1, ← htake, htake']

/-- The scheme of images is an owner with a slash at the beginning of the repository. -/
theorem IsOwner.dockerScheme_isPrefix_iff {owner after t : Text} (h : IsOwner owner after t) :
    dockerScheme <+: t ↔ owner = "docker:".toList ∧ after.head? = some '/' := by
  constructor
  · rintro ⟨image, himage⟩
    have hdocker : IsOwner "docker:".toList ('/' :: image) t :=
      ⟨himage.symm, by decide, by decide⟩
    obtain ⟨rfl, rfl⟩ := h.unique hdocker
    exact ⟨rfl, rfl⟩
  · rintro ⟨rfl, hslash⟩
    obtain ⟨image, rfl⟩ := List.head?_eq_some_iff.mp hslash
    exact ⟨image, h.eq_append.symm⟩

/-! ## Nothing is lost -/

section

variable {t owner repo ref : Text}

theorem splitRef?_sound {path : Text} (h : splitRef? t = some (path, ref)) :
    t = path ++ '@' :: ref ∧ ref ≠ [] := by
  induction t generalizing path with
  | nil => cases h
  | cons c t ih =>
    unfold splitRef? at h
    split at h
    · next path' ref' hrest =>
      -- a later at-sign is preferred
      cases h
      obtain ⟨rfl, href⟩ := ih hrest
      exact ⟨rfl, href⟩
    · split at h
      · next hat =>
        cases h
        exact ⟨by rw [hat.1, List.nil_append], hat.2⟩
      · cases h

variable {path : Option Text}

theorem splitPath?_sound (h : splitPath? t = some (path, ref)) :
    t = pathText path ++ '@' :: ref ∧ path ≠ some [] ∧ ref ≠ [] := by
  unfold splitPath? at h
  split at h
  · next c t =>
    obtain ⟨⟨rest, ref'⟩, hsplit, hparts⟩ := Option.map_eq_some_iff.mp h
    cases hparts
    obtain ⟨rfl, href⟩ := splitRef?_sound hsplit
    exact ⟨rfl, by simp, href⟩
  · cases h
    exact ⟨rfl, by simp, by simp⟩
  · cases h

/-- A repository goes up to the first place where a path and a ref can follow. -/
theorem splitRepo?_eq_some_iff : splitRepo? t = some (repo, path, ref) ↔
    ∃ rest, t = repo ++ rest ∧ splitPath? rest = some (path, ref) ∧
      ∀ before after, repo = before ++ after → after ≠ [] → splitPath? (after ++ rest) = none := by
  induction t generalizing repo with
  | nil =>
    constructor
    · intro h
      cases h
    · rintro ⟨rest, hrest, hpath, -⟩
      rw [(List.append_eq_nil_iff.mp hrest.symm).2] at hpath
      cases hpath
  | cons c t ih =>
    rw [splitRepo?]
    cases hhere : splitPath? (c :: t) with
    | some parts =>
      constructor
      · intro h
        cases h
        exact ⟨c :: t, rfl, hhere, fun before after heq hne =>
          absurd (List.append_eq_nil_iff.mp heq.symm).2 hne⟩
      · rintro ⟨rest, hrest, hpath, hfirst⟩
        cases repo with
        | nil =>
          rw [List.nil_append] at hrest
          rw [← hrest, hhere, Option.some.injEq] at hpath
          rw [hpath]
        | cons d name =>
          have hnone := hfirst [] (d :: name) rfl (List.cons_ne_nil d name)
          rw [← hrest, hhere] at hnone
          cases hnone
    | none =>
      constructor
      · intro h
        obtain ⟨⟨name, path', ref'⟩, hsplit, hparts⟩ := Option.map_eq_some_iff.mp h
        cases hparts
        obtain ⟨rest, rfl, hpath, hfirst⟩ := ih.mp hsplit
        refine ⟨rest, rfl, hpath, fun before after heq hne => ?_⟩
        cases before with
        | nil =>
          rw [List.nil_append] at heq
          rw [← heq]
          exact hhere
        | cons d before =>
          exact hfirst before after (List.cons.inj heq).2 hne
      · rintro ⟨rest, hrest, hpath, hfirst⟩
        cases repo with
        | nil =>
          rw [List.nil_append] at hrest
          rw [hrest, hpath] at hhere
          cases hhere
        | cons d name =>
          rw [List.cons_append, List.cons.injEq] at hrest
          have hsplit := ih.mpr ⟨rest, hrest.2, hpath, fun before after heq hne =>
            hfirst (d :: before) after (by rw [heq]; rfl) hne⟩
          rw [hsplit, hrest.1]
          rfl

theorem splitRepo?_sound (h : splitRepo? t = some (repo, path, ref)) :
    t = repo ++ pathText path ++ '@' :: ref ∧ path ≠ some [] ∧ ref ≠ [] := by
  obtain ⟨rest, rfl, hpath, -⟩ := splitRepo?_eq_some_iff.mp h
  obtain ⟨rfl, hne⟩ := splitPath?_sound hpath
  exact ⟨by rw [List.append_assoc], hne⟩

/-- The owner is followed by a character of the repository, and then by the first place where a path
and a ref can follow. -/
theorem splitRemote?_eq_some_iff : splitRemote? t = some (owner, repo, path, ref) ↔
    ∃ c name rest, IsOwner owner (c :: rest) t ∧ repo = c :: name ∧
      splitRepo? rest = some (name, path, ref) := by
  constructor
  · intro h
    unfold splitRemote? at h
    split at h
    · cases h
    · next first t =>
      split at h
      · next slash c rest hdrop =>
        obtain ⟨⟨name, path', ref'⟩, hsplit, hparts⟩ := Option.map_eq_some_iff.mp h
        cases hparts
        have hslash : slash = '/' := by
          have hhead := List.head?_dropWhile_not (fun c => c != '/') t
          rw [hdrop] at hhead
          simpa using hhead
        have ht := List.takeWhile_append_dropWhile (p := fun c => c != '/') (l := t)
        rw [hdrop, hslash] at ht
        refine ⟨c, name, rest, ⟨by rw [List.cons_append, ht], by simp, fun hmem => ?_⟩, rfl, hsplit⟩
        have hne := List.mem_takeWhile_imp hmem
        simp at hne
      · cases h
  · rintro ⟨c, name, rest, ⟨rfl, hne, htail⟩, rfl, hsplit⟩
    obtain ⟨first, s, rfl⟩ := List.exists_cons_of_ne_nil hne
    obtain ⟨htake, hdrop⟩ :=
      span_slash (s := s) (fun d hd => ne_of_mem_of_not_mem hd htail) (c :: rest)
    rw [List.cons_append, splitRemote?, hdrop, htake]
    dsimp only
    rw [hsplit]
    rfl

/-- The parts of a reference make up its text, and none of them is empty. -/
theorem splitRemote?_sound (h : splitRemote? t = some (owner, repo, path, ref)) :
    t = placeText owner repo path ++ '@' :: ref ∧
      owner ≠ [] ∧ repo ≠ [] ∧ path ≠ some [] ∧ ref ≠ [] := by
  obtain ⟨c, name, rest, howner, rfl, hrepo⟩ := splitRemote?_eq_some_iff.mp h
  obtain ⟨rfl, hpath, href⟩ := splitRepo?_sound hrepo
  refine ⟨?_, howner.ne_nil, List.cons_ne_nil c name, hpath, href⟩
  rw [howner.eq_append]
  simp [placeText]

end

/-! ## No split is missed -/

/-- In front of a ref there is always a repository. -/
theorem exists_splitRepo?_eq (before : Text) {ref : Text} (href : ref ≠ []) :
    ∃ parts, splitRepo? (before ++ '@' :: ref) = some parts := by
  induction before with
  | nil =>
    obtain ⟨c, t, rfl⟩ := List.exists_cons_of_ne_nil href
    exact ⟨([], none, c :: t), rfl⟩
  | cons c before ih =>
    rw [List.cons_append, splitRepo?]
    split
    · next path ref' _ => exact ⟨([], path, ref'), rfl⟩
    · obtain ⟨parts, hparts⟩ := ih
      rw [hparts]
      exact ⟨_, rfl⟩

/-- What comes after the owner ends with what comes after any slash but one at the beginning. -/
theorem exists_isOwner {x : Text} (hx : x ≠ []) (after : Text) :
    ∃ owner between, IsOwner owner (between ++ after) (x ++ '/' :: after) := by
  obtain ⟨first, x', rfl⟩ := List.exists_cons_of_ne_nil hx
  by_cases hslash : '/' ∈ x'
  · obtain ⟨front, between, rfl, hfront⟩ := List.eq_append_cons_of_mem hslash
    exact ⟨first :: front, between ++ ['/'], by simp, List.cons_ne_nil first front, hfront⟩
  · exact ⟨first :: x', [], rfl, hx, hslash⟩

/-- A text with a slash and an at-sign, and something around them, is split somehow. -/
theorem exists_splitRemote?_eq {x y z : Text} (hx : x ≠ []) (hy : y ≠ []) (hz : z ≠ []) :
    ∃ parts, splitRemote? (x ++ '/' :: y ++ '@' :: z) = some parts := by
  obtain ⟨owner, between, howner⟩ := exists_isOwner hx (y ++ '@' :: z)
  -- the repository begins with the first character behind the slash, whatever it is
  obtain ⟨d, before, hbefore⟩ :=
    List.exists_cons_of_ne_nil (List.append_ne_nil_of_right_ne_nil between hy)
  obtain ⟨⟨name, path, ref⟩, hrepo⟩ := exists_splitRepo?_eq before hz
  refine ⟨(owner, d :: name, path, ref),
    splitRemote?_eq_some_iff.mpr ⟨d, name, before ++ '@' :: z, ?_, rfl, hrepo⟩⟩
  rw [← List.append_assoc, hbefore] at howner
  simpa using howner

/-! ## References to repositories -/

/-- The references to files of repositories are the results of the split, of texts that are no
references to images or to files of the project. -/
theorem ofUses_eq_remote_iff {uses : Text} {file : RemoteFile} :
    ofUses uses = .remote file ↔
      ¬ dockerScheme <+: Text.trim uses ∧ (Text.trim uses).head? ≠ some '.' ∧
        '\n' ∉ Text.trim uses ∧
        ∃ path, splitRemote? (Text.trim uses) = some (file.owner, file.repo, path, file.ref) ∧
          file.path = definitionPath path := by
  unfold ofUses ofTrimmed
  generalize Text.trim uses = t
  rw [← Text.stripPrefix?_eq_none_iff]
  cases Text.stripPrefix? dockerScheme t with
  | some image => simp
  | none =>
    by_cases hdot : t.head? = some '.'
    · simp [hdot]
    by_cases hline : '\n' ∈ t
    · simp [hdot, hline]
    cases hsplit : splitRemote? t with
    | none => simp [hdot, hline]
    | some parts =>
      obtain ⟨owner, repo, path, ref⟩ := parts
      obtain ⟨owner', repo', path', ref'⟩ := file
      simp only [hdot, hline, if_false, remote.injEq, RemoteFile.mk.injEq, Option.some.injEq,
        Prod.mk.injEq, true_and, not_false_eq_true, ne_eq]
      constructor
      · rintro ⟨rfl, rfl, rfl, rfl⟩
        exact ⟨path, ⟨rfl, rfl, rfl, rfl⟩, rfl⟩
      · rintro ⟨_, ⟨rfl, rfl, rfl, rfl⟩, rfl⟩
        exact ⟨rfl, rfl, rfl, rfl⟩

/-- A reference to a repository is its text, and none of its parts is empty. -/
theorem exists_of_ofUses_eq_remote {uses : Text} {file : RemoteFile}
    (h : ofUses uses = .remote file) :
    ∃ path, Text.trim uses = placeText file.owner file.repo path ++ '@' :: file.ref ∧
      file.path = definitionPath path ∧
      file.owner ≠ [] ∧ file.repo ≠ [] ∧ path ≠ some [] ∧ file.ref ≠ [] := by
  obtain ⟨-, -, -, path, hsplit, hpath⟩ := ofUses_eq_remote_iff.mp h
  obtain ⟨htext, hparts⟩ := splitRemote?_sound hsplit
  exact ⟨path, htext, hpath, hparts⟩

/-- A reference to an image is what is written after the scheme. -/
theorem trim_eq_of_ofUses_eq_docker {uses image : Text} (h : ofUses uses = .docker image) :
    Text.trim uses = dockerScheme ++ image := by
  unfold ofUses ofTrimmed at h
  split at h
  · next rest hstrip =>
    cases h
    exact Text.stripPrefix?_eq_some_iff.mp hstrip
  · split at h
    · cases h
    · split at h
      · cases h
      · split at h <;> cases h

/-- A path that is written in full is kept, and another one is that of a folder. -/
theorem definitionPath_some (path : Text) :
    definitionPath (some path)
      = if ".yml".toList <:+ path ∨ ".yaml".toList <:+ path then path
        else path ++ '/' :: definitionFile := by
  unfold definitionPath isYamlFile
  simp only [Bool.or_eq_true, Text.endsWith_iff]

theorem definitionPath_ne_nil {path : Option Text} (h : path ≠ some []) :
    definitionPath path ≠ [] := by
  cases path with
  | none => decide
  | some path =>
    rw [definitionPath_some]
    split
    · exact fun hnil => h (by rw [hnil])
    · simp

/-- The form of the texts that may name a file of a repository. -/
def HasRemoteForm (t : Text) : Prop :=
  '\n' ∉ t ∧ ∃ x y z, x ≠ [] ∧ y ≠ [] ∧ z ≠ [] ∧ t = x ++ '/' :: y ++ '@' :: z

theorem hasRemoteForm_of_ofUses_eq_remote {uses : Text} {file : RemoteFile}
    (h : ofUses uses = .remote file) : HasRemoteForm (Text.trim uses) := by
  refine ⟨(ofUses_eq_remote_iff.mp h).2.2.1, ?_⟩
  obtain ⟨path, htext, -, howner, hrepo, -, href⟩ := exists_of_ofUses_eq_remote h
  refine ⟨file.owner, file.repo ++ pathText path, file.ref, howner, ?_, href, ?_⟩
  · exact List.append_ne_nil_of_left_ne_nil hrepo _
  · simp [htext, placeText]

/-- A text that names neither an image nor a file of the project names a file of a repository or
nothing. -/
theorem ofUses_cases {uses : Text} (hdocker : ¬ dockerScheme <+: Text.trim uses)
    (hdot : (Text.trim uses).head? ≠ some '.') :
    (∃ file, ofUses uses = .remote file) ∨ ofUses uses = .unresolved := by
  unfold ofUses ofTrimmed
  rw [Text.stripPrefix?_eq_none_iff.mpr hdocker]
  dsimp only
  rw [if_neg hdot]
  split
  · exact .inr rfl
  · split
    · exact .inl ⟨_, rfl⟩
    · exact .inr rfl

/-- **Which texts are references to repositories, and how their parts are written.**  Among the
texts that name neither an image nor a file of the project they are those on one line with a slash
and a later at-sign that stand next to no end and not next to each other.  The parts of a reference
make up its text, up to the name of the definition file where the path is missing or that of a
folder. -/
theorem ofUses_remote_spec (uses : Text) (hdocker : ¬ dockerScheme <+: Text.trim uses)
    (hdot : (Text.trim uses).head? ≠ some '.') :
    (HasRemoteForm (Text.trim uses) → ∃ file, ofUses uses = .remote file) ∧
    (¬ HasRemoteForm (Text.trim uses) → ofUses uses = .unresolved) ∧
    ∀ file, ofUses uses = .remote file →
      (file.owner ≠ [] ∧ file.repo ≠ [] ∧ file.path ≠ [] ∧ file.ref ≠ []) ∧
      ((Text.trim uses = file.owner ++ '/' :: file.repo ++ '@' :: file.ref ∧
          file.path = "action.yml".toList) ∨
        ∃ p, p ≠ [] ∧
          Text.trim uses = file.owner ++ '/' :: file.repo ++ '/' :: p ++ '@' :: file.ref ∧
          file.path = if ".yml".toList <:+ p ∨ ".yaml".toList <:+ p then p
            else p ++ "/action.yml".toList) := by
  refine ⟨?_, ?_, ?_⟩
  · rintro ⟨hline, x, y, z, hx, hy, hz, htext⟩
    obtain ⟨⟨owner, repo, path, ref⟩, hsplit⟩ := exists_splitRemote?_eq hx hy hz
    rw [← htext] at hsplit
    exact ⟨⟨owner, repo, definitionPath path, ref⟩,
      ofUses_eq_remote_iff.mpr ⟨hdocker, hdot, hline, path, hsplit, rfl⟩⟩
  · intro hform
    rcases ofUses_cases hdocker hdot with ⟨file, hfile⟩ | hnone
    · exact absurd (hasRemoteForm_of_ofUses_eq_remote hfile) hform
    · exact hnone
  · intro file hfile
    obtain ⟨path, htext, hpath, howner, hrepo, hne, href⟩ := exists_of_ofUses_eq_remote hfile
    refine ⟨⟨howner, hrepo, hpath ▸ definitionPath_ne_nil hne, href⟩, ?_⟩
    cases path with
    | none =>
      rw [placeText, pathText, List.append_nil] at htext
      exact .inl ⟨htext, hpath⟩
    | some p =>
      refine .inr ⟨p, fun hnil => hne (by rw [hnil]), htext, ?_⟩
      rw [hpath, definitionPath_some]
      rfl

/-- A text with three slashes and two at-signs: the path goes as far as it can. -/
theorem ofUses_twoAtSigns :
    let uses := " org/repo/tools@v1/lint@main".toList
    (¬ dockerScheme <+: Text.trim uses ∧ (Text.trim uses).head? ≠ some '.') ∧
      HasRemoteForm (Text.trim uses) ∧
      ofUses uses = .remote ⟨"org".toList, "repo".toList, "tools@v1/lint/action.yml".toList,
        "main".toList⟩ ∧
      ∃ p, p ≠ [] ∧ Text.trim uses = "org/repo/".toList ++ p ++ "@main".toList := by
  intro uses
  have hdocker : ¬ dockerScheme <+: Text.trim uses := by decide +kernel
  have hdot : (Text.trim uses).head? ≠ some '.' := by decide +kernel
  have hform : HasRemoteForm (Text.trim uses) :=
    ⟨by decide +kernel, "org/repo".toList, "tools".toList, "v1/lint@main".toList,
      by decide, by decide, by decide, by decide +kernel⟩
  have hfile : ofUses uses = .remote ⟨"org".toList, "repo".toList,
      "tools@v1/lint/action.yml".toList, "main".toList⟩ := by decide +kernel
  refine ⟨⟨hdocker, hdot⟩, hform, hfile, ?_⟩
  rcases ((ofUses_remote_spec uses hdocker hdot).2.2 _ hfile).2 with ⟨-, hpath⟩ | ⟨p, hp, htext, -⟩
  · exact absurd hpath (by decide +kernel)
  · exact ⟨p, hp, htext⟩

end WorkflowLens.Reference
