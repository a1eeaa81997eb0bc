import WorkflowLens.Action.Fetch
import WorkflowLens.Proofs.Action.WrittenForm
import WorkflowLens.Proofs.Text.Pieces

/-!
# Owners and repositories as segments of addresses

The page of a repository and the requests for its files are addressed by the owner and the
repository, one after the other with slashes between.  So they are found at their places in an
address exactly if no slash stands in them.

Reading does not see to this.  It takes the first character of the owner and that of the repository
as they come, and it goes on with the repository until a path or a ref can follow.  A slash is
passed over on the way only if no path can begin behind it, which is so directly in front of the
at-sign of a ref: the at-sign would have to be in the path, and then no other one is left for the
ref.  There are no further ways in which a slash gets into an owner or a repository.

* `slash_mem_of_splitRepo?_iff`: the slash that is passed over.
* `slash_mem_owner_iff`, `slash_mem_repo_iff`: the texts whose owner or repository has a slash.
* `RemoteFile.isAddressed_iff`: what this means for addresses.
* `slash_mem_parts_spec`: all of this for a text that is read.
-/

namespace WorkflowLens

/-! ## Addresses -/

/-- The owner and the repository are found at their places in the addresses of the page and of the
request for the file. -/
def RemoteFile.IsAddressed (f : RemoteFile) : Prop :=
  ["https:".toList, [], "github.com".toList, f.owner, f.repo] <+: f.webUrl.splitOn '/' ∧
    ["https:".toList, [], "api.github.com".toList, "repos".toList, f.owner, f.repo]
      <+: (ContentRequest.ofFile f).url.splitOn '/'

/-- After the repository the address of its page is over, or it goes on with a slash. -/
theorem RemoteFile.exists_webUrl_eq (f : RemoteFile) :
    ∃ rest : Text, (∀ c ∈ rest.head?, c = '/') ∧
      f.webUrl = "https://github.com".toList ++ '/' :: (f.owner ++ '/' :: (f.repo ++ rest)) := by
  unfold webUrl
  dsimp only
  split
  · exact ⟨[], by simp, by simp⟩
  · exact ⟨"/tree/".toList ++ f.ref, by simp, by simp⟩

/-- After the repository the address of a request goes on with a slash. -/
theorem ContentRequest.exists_url_eq (f : RemoteFile) :
    ∃ rest : Text, (∀ c ∈ rest.head?, c = '/') ∧
      (ContentRequest.ofFile f).url
        = "https://api.github.com/repos".toList ++ '/' :: (f.owner ++ '/' :: (f.repo ++ rest)) := by
  unfold ContentRequest.ofFile
  dsimp only
  split
  · exact ⟨"/contents/".toList ++ f.path.dropWhile (· == '/'), by simp, by simp⟩
  · exact ⟨"/contents/".toList ++ f.path.dropWhile (· == '/') ++ "?ref=".toList ++ f.ref,
      by simp, by simp⟩

/-- Owner and repository are addressed exactly if they are single segments. -/
theorem RemoteFile.isAddressed_iff (f : RemoteFile) :
    f.IsAddressed ↔ '/' ∉ f.owner ∧ '/' ∉ f.repo := by
  obtain ⟨rest, hrest, hurl⟩ := f.exists_webUrl_eq
  obtain ⟨rest', hrest', hurl'⟩ := ContentRequest.exists_url_eq f
  have hhost : "https://github.com".toList.splitOn '/'
      = ["https:".toList, [], "github.com".toList] := by decide
  have hhost' : "https://api.github.com/repos".toList.splitOn '/'
      = ["https:".toList, [], "api.github.com".toList, "repos".toList] := by decide
  have hpage := Text.append_pair_isPrefix_splitOn_iff "https://github.com".toList f.owner f.repo
    hrest
  have hrequest := Text.append_pair_isPrefix_splitOn_iff "https://api.github.com/repos".toList
    f.owner f.repo hrest'
  rw [hhost, ← hurl] at hpage
  rw [hhost', ← hurl'] at hrequest
  exact ⟨fun h => hpage.mp h.1, fun h => ⟨hpage.mpr h, hrequest.mpr h⟩⟩

namespace Reference

/-! ## Slashes in repositories -/

/-- An at-sign with something behind it counts. -/
theorem at_mem_dropLast (s : Text) {ref : Text} (href : ref ≠ []) :
    '@' ∈ (s ++ '@' :: ref).dropLast := by
  rw [List.dropLast_append_of_ne_nil (List.cons_ne_nil '@' ref), List.dropLast_cons_of_ne_nil href]
  exact List.mem_append_right s List.mem_cons_self

theorem splitPath?_at_eq_none_iff {t : Text} : splitPath? ('@' :: t) = none ↔ t = [] := by
  cases t <;> simp [splitPath?]

/-- No path begins at a slash if no at-sign that counts comes after its first character. -/
theorem splitPath?_slash_eq_none_iff {t : Text} :
    splitPath? ('/' :: t) = none ↔ '@' ∉ t.tail.dropLast := by
  cases t with
  | nil => simp [splitPath?]
  | cons c t => rw [splitPath?, Option.map_eq_none_iff, splitRef?_eq_none_iff, List.tail_cons]

section

variable {t name ref : Text} {path : Option Text}

theorem at_not_mem_of_splitRepo?_eq (h : splitRepo? t = some (name, path, ref)) : '@' ∉ name := by
  obtain ⟨rest, -, hpath, hfirst⟩ := splitRepo?_eq_some_iff.mp h
  intro hmem
  obtain ⟨before, after, hname⟩ := List.append_of_mem hmem
  have hnone := hfirst before ('@' :: after) hname (List.cons_ne_nil '@' after)
  rw [List.cons_append, splitPath?_at_eq_none_iff, List.append_eq_nil_iff] at hnone
  rw [hnone.2] at hpath
  cases hpath

/-- After a slash in the repository the ref begins. -/
theorem of_splitRepo?_eq_append_slash {before after : Text}
    (h : splitRepo? t = some (before ++ '/' :: after, path, ref)) :
    after = [] ∧ path = none ∧ '@' ∉ ref.dropLast := by
  obtain ⟨rest, -, hpath, hfirst⟩ := splitRepo?_eq_some_iff.mp h
  obtain ⟨rfl, hne, href⟩ := splitPath?_sound hpath
  have hnone := hfirst before ('/' :: after) rfl (List.cons_ne_nil '/' after)
  rw [List.cons_append, splitPath?_slash_eq_none_iff] at hnone
  cases after with
  | cons c after =>
    rw [List.cons_append, List.tail_cons, ← List.append_assoc] at hnone
    exact absurd (at_mem_dropLast (after ++ pathText path) href) hnone
  | nil =>
    cases path with
    | some p =>
      rw [List.nil_append, pathText, List.cons_append, List.tail_cons] at hnone
      exact absurd (at_mem_dropLast p href) hnone
    | none => exact ⟨rfl, rfl, hnone⟩

/-- The slash in front of the at-sign of a ref is not that of a path. -/
theorem splitRepo?_append_slash_at (hname : ∀ c ∈ name, c ≠ '/' ∧ c ≠ '@') (hne : ref ≠ [])
    (hat : '@' ∉ ref.dropLast) :
    splitRepo? (name ++ '/' :: '@' :: ref) = some (name ++ ['/'], none, ref) := by
  induction name with
  | nil =>
    have hslash : splitPath? ('/' :: '@' :: ref) = none := splitPath?_slash_eq_none_iff.mpr hat
    obtain ⟨c, s, rfl⟩ := List.exists_cons_of_ne_nil hne
    rw [List.nil_append, splitRepo?, hslash]
    rfl
  | cons c name ih =>
    obtain ⟨hslash, hat⟩ := hname c List.mem_cons_self
    rw [List.cons_append, splitRepo?, splitPath?_cons_eq_none hslash hat,
      ih fun d hd => hname d (List.mem_cons_of_mem c hd)]
    rfl

/-- **A slash stands in the repository, after its first character, exactly if it stands directly in
front of the at-sign, with no other slash and at-sign before it.** -/
theorem slash_mem_of_splitRepo?_iff (h : splitRepo? t = some (name, path, ref)) :
    '/' ∈ name ↔ ∃ front last, t = front ++ '/' :: '@' :: last ∧
      (∀ c ∈ front, c ≠ '/' ∧ c ≠ '@') ∧ last ≠ [] ∧ '@' ∉ last.dropLast := by
  constructor
  · intro hmem
    obtain ⟨front, after, rfl⟩ := List.append_of_mem hmem
    obtain ⟨rfl, rfl, hat⟩ := of_splitRepo?_eq_append_slash h
    obtain ⟨ht, -, href⟩ := splitRepo?_sound h
    refine ⟨front, ref, by simp [ht, pathText], fun c hc => ⟨?_, ?_⟩, href, hat⟩
    · rintro rfl
      obtain ⟨before, between, rfl⟩ := List.append_of_mem hc
      rw [List.append_assoc, List.cons_append] at h
      exact absurd (of_splitRepo?_eq_append_slash h).1 (by simp)
    · rintro rfl
      exact at_not_mem_of_splitRepo?_eq h (List.mem_append_left _ hc)
  · rintro ⟨front, last, rfl, hfront, hne, hat⟩
    rw [splitRepo?_append_slash_at hfront hne hat, Option.some.injEq, Prod.mk.injEq] at h
    rw [← h.1]
    exact List.mem_append_right front List.mem_cons_self

end

/-! ## Slashes that separate nothing -/

/-- A slash comes directly after the one behind the owner. -/
def HasDoubledSlash (t : Text) : Prop :=
  ∃ owner rest, IsOwner owner ('/' :: rest) t

/-- A slash stands at the end of the repository, directly in front of the at-sign of the ref. -/
def HasTrailingSlash (t : Text) : Prop :=
  ∃ owner c name ref, IsOwner owner (c :: (name ++ '/' :: '@' :: ref)) t ∧
    (∀ d ∈ name, d ≠ '/' ∧ d ≠ '@') ∧ ref ≠ [] ∧ '@' ∉ ref.dropLast

section

variable {t owner repo ref : Text} {path : Option Text}

theorem slash_mem_owner_iff (h : splitRemote? t = some (owner, repo, path, ref)) :
    '/' ∈ owner ↔ t.head? = some '/' := by
  obtain ⟨c, name, rest, ⟨rfl, hne, htail⟩, -, -⟩ := splitRemote?_eq_some_iff.mp h
  obtain ⟨first, s, rfl⟩ := List.exists_cons_of_ne_nil hne
  rw [List.tail_cons] at htail
  simp [htail, eq_comm]

theorem slash_mem_repo_iff (h : splitRemote? t = some (owner, repo, path, ref)) :
    '/' ∈ repo ↔ HasDoubledSlash t ∨ HasTrailingSlash t := by
  obtain ⟨c, name, rest, howner, rfl, hrepo⟩ := splitRemote?_eq_some_iff.mp h
  rw [List.mem_cons, slash_mem_of_splitRepo?_iff hrepo]
  refine or_congr ⟨?_, ?_⟩ ⟨?_, ?_⟩
  · rintro rfl
    exact ⟨owner, rest, howner⟩
  · rintro ⟨owner', rest', howner'⟩
    exact (List.cons.inj (howner'.unique howner).2).1
  · rintro ⟨front, last, rfl, hfront⟩
    exact ⟨owner, c, front, last, howner, hfront⟩
  · rintro ⟨owner', c', front, last, howner', hfront⟩
    exact ⟨front, last, (List.cons.inj (howner.unique howner').2).2, hfront⟩

end

/-- A slash stands where it separates nothing. -/
def HasStraySlash (t : Text) : Prop :=
  t.head? = some '/' ∨ HasDoubledSlash t ∨ HasTrailingSlash t

/-- The slashes of owners and repositories are stray slashes. -/
theorem slash_mem_parts_iff {uses : Text} {file : RemoteFile} (h : ofUses uses = .remote file) :
    '/' ∈ file.owner ∨ '/' ∈ file.repo ↔ HasStraySlash (Text.trim uses) := by
  obtain ⟨-, -, -, path, hsplit, -⟩ := ofUses_eq_remote_iff.mp h
  exact or_congr (slash_mem_owner_iff hsplit) (slash_mem_repo_iff hsplit)

/-- **When owner and repository are single segments.**  A slash stands in the owner of a text that
is read as a reference to a repository exactly if the text begins with it, and in the repository
exactly if it comes directly after the slash behind the owner or directly in front of the at-sign.
The addresses that are made of the reference lead to the repository exactly if there is no such
slash. -/
theorem slash_mem_parts_spec {uses : Text} {file : RemoteFile} (h : ofUses uses = .remote file) :
    ('/' ∈ file.owner ↔ (Text.trim uses).head? = some '/') ∧
    ('/' ∈ file.repo ↔
      HasDoubledSlash (Text.trim uses) ∨ HasTrailingSlash (Text.trim uses)) ∧
    (file.IsAddressed ↔ ¬ HasStraySlash (Text.trim uses)) := by
  obtain ⟨-, -, -, path, hsplit, -⟩ := ofUses_eq_remote_iff.mp h
  refine ⟨slash_mem_owner_iff hsplit, slash_mem_repo_iff hsplit, ?_⟩
  rw [file.isAddressed_iff, ← slash_mem_parts_iff h, not_or]

/-- A slash directly in front of an at-sign belongs to the path if a later at-sign is there for the
ref. -/
theorem isAddressed_scopedFolder :
    let file : RemoteFile :=
      ⟨"org".toList, "repo".toList, "@next/tools/action.yml".toList, "v1".toList⟩
    ofUses "org/repo/@next/tools@v1".toList = .remote file ∧
      ¬ HasStraySlash (Text.trim "org/repo/@next/tools@v1".toList) ∧ file.IsAddressed := by
  intro file
  have hfile : ofUses "org/repo/@next/tools@v1".toList = .remote file := by decide +kernel
  obtain ⟨howner, hrepo, haddressed⟩ := slash_mem_parts_spec hfile
  have hstray : ¬ HasStraySlash (Text.trim "org/repo/@next/tools@v1".toList) := by
    rintro (hleading | hslash)
    · exact absurd (howner.mpr hleading) (by decide)
    · exact absurd (hrepo.mpr hslash) (by decide)
  exact ⟨hfile, hstray, haddressed.mpr hstray⟩

/-- **A slash in front of the at-sign, one after the owner's and one at the beginning are read as
parts of a repository and of an owner, and the addresses lead elsewhere.** -/
theorem not_isAddressed_straySlashes :
    let trailing : RemoteFile := ⟨"owner".toList, "repo/".toList, definitionFile, "ref".toList⟩
    let doubled : RemoteFile := ⟨"owner".toList, "/repo".toList, definitionFile, "ref".toList⟩
    let leading : RemoteFile := ⟨"/owner".toList, "repo".toList, definitionFile, "ref".toList⟩
    (ofUses "owner/repo/@ref".toList = .remote trailing ∧ '/' ∈ trailing.repo ∧
        ¬ trailing.IsAddressed) ∧
      (ofUses "owner//repo@ref".toList = .remote doubled ∧ '/' ∈ doubled.repo ∧
        ¬ doubled.IsAddressed) ∧
      ofUses "/owner/repo@ref".toList = .remote leading ∧ '/' ∈ leading.owner ∧
        ¬ leading.IsAddressed := by
  intro trailing doubled leading
  simp only [RemoteFile.isAddressed_iff]
  decide +kernel

end Reference

end WorkflowLens
