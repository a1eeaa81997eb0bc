import WorkflowLens.Proofs.Action.References
import WorkflowLens.Proofs.Text.Runs

/-!
# Reading a reference that was written

A reference to a file of a repository is written as `owner/repo@ref` or `owner/repo/path@ref`.  In
general such a text can be split in several ways, because slashes may stand in the path and in the
ref.  But neither stands in the owner and in the repository, so the first slash and the first of
the two separators after it are where they were written.  What comes after them is a ref, in which
everything may stand, or a path and a ref with one at-sign between them.

* `WrittenParts`: the parts of which this holds.
* `splitRef?_append`, `splitPath?_pathText`, `splitRepo?_append`, `splitRemote?_placeText`: each
  separator is found where it was written.
* `ofUses_placeText`: reading gives back the parts that were written.
-/

namespace WorkflowLens.Reference

/-- The parts of a reference can be told apart when they are written one after the other.  The
owner begins in a way in which no other kind of text begins.  Neither separator stands in the owner
and in the repository, and no at-sign in the path, nor in the ref if there is a path. -/
structure WrittenParts (owner repo : Text) (path : Option Text) (ref : Text) : Prop where
  owner_ne_nil : owner ≠ []
  owner_head : ∀ c ∈ owner.head?, c ≠ '.' ∧ Text.isBlank c = false
  owner_mem : ∀ c ∈ owner, c ≠ '/' ∧ c ≠ '@' ∧ c ≠ '\n'
  repo_ne_nil : repo ≠ []
  repo_mem : ∀ c ∈ repo, c ≠ '/' ∧ c ≠ '@' ∧ c ≠ '\n'
  path_ne_nil : path ≠ some []
  path_mem : ∀ p ∈ path, '@' ∉ p ∧ '\n' ∉ p
  ref_ne_nil : ref ≠ []
  ref_single : '\n' ∉ ref
  ref_last : ∀ c ∈ ref.getLast?, Text.isBlank c = false
  ref_mem : path ≠ none → '@' ∉ ref

/-! ## The separators -/

/-- An at-sign counts if something comes after it. -/
theorem splitRef?_eq_none_iff {t : Text} : splitRef? t = none ↔ '@' ∉ t.dropLast := by
  induction t with
  | nil => simp [splitRef?]
  | cons c t ih =>
    cases t with
    | nil => simp [splitRef?]
    | cons d t =>
      rw [splitRef?, List.dropLast_cons_of_ne_nil (List.cons_ne_nil d t), List.mem_cons, not_or,
        ← ih]
      cases splitRef? (d :: t) with
      | some parts => simp
      | none => simp [eq_comm]

/-- What is put in front of a text in which an at-sign counts goes into the path. -/
theorem splitRef?_append_of_eq_some {t path ref : Text} (h : splitRef? t = some (path, ref))
    (front : Text) : splitRef? (front ++ t) = some (front ++ path, ref) := by
  induction front with
  | nil => exact h
  | cons c front ih => rw [List.cons_append, splitRef?, ih, List.cons_append]

/-- The last at-sign that counts stands before a ref in which none counts. -/
theorem splitRef?_append {ref : Text} (hne : ref ≠ []) (hat : '@' ∉ ref.dropLast) (path : Text) :
    splitRef? (path ++ '@' :: ref) = some (path, ref) := by
  have hsplit : splitRef? ('@' :: ref) = some ([], ref) := by
    rw [splitRef?, splitRef?_eq_none_iff.mpr hat]
    exact if_pos ⟨rfl, hne⟩
  rw [splitRef?_append_of_eq_some hsplit, List.append_nil]

/-- After the repository come the path, if there is one, and the ref. -/
theorem splitPath?_pathText {path : Option Text} {ref : Text} (hpath : path ≠ some [])
    (hne : ref ≠ []) (hat : path ≠ none → '@' ∉ ref.dropLast) :
    splitPath? (pathText path ++ '@' :: ref) = some (path, ref) := by
  cases path with
  | none =>
    obtain ⟨c, t, rfl⟩ := List.exists_cons_of_ne_nil hne
    rfl
  | some p =>
    obtain ⟨c, p, rfl⟩ := List.exists_cons_of_ne_nil fun hnil => hpath (congrArg some hnil)
    have hsplit := splitRef?_append hne (hat (Option.some_ne_none _)) p
    rw [pathText, List.cons_append, List.cons_append, splitPath?, hsplit]
    rfl

theorem splitPath?_cons_eq_none {c : Char} (hslash : c ≠ '/') (hat : c ≠ '@') (t : Text) :
    splitPath? (c :: t) = none := by
  unfold splitPath?
  split
  · next heq => exact absurd (List.cons.inj heq).1 hslash
  · next heq => exact absurd (List.cons.inj heq).1 hat
  · rfl

/-- The repository goes up to the first separator. -/
theorem splitRepo?_append {repo rest ref : Text} {path : Option Text}
    (hrepo : ∀ c ∈ repo, c ≠ '/' ∧ c ≠ '@') (hrest : splitPath? rest = some (path, ref)) :
    splitRepo? (repo ++ rest) = some (repo, path, ref) := by
  refine splitRepo?_eq_some_iff.mpr ⟨rest, rfl, hrest, fun before after heq hne => ?_⟩
  obtain ⟨c, s, rfl⟩ := List.exists_cons_of_ne_nil hne
  have hmem : c ∈ repo := heq ▸ List.mem_append_right before List.mem_cons_self
  obtain ⟨hslash, hat⟩ := hrepo c hmem
  rw [List.cons_append]
  exact splitPath?_cons_eq_none hslash hat _

section

variable {owner repo ref : Text} {path : Option Text}

theorem head?_placeText (howner : owner ≠ []) :
    (placeText owner repo path ++ '@' :: ref).head? = owner.head? := by
  rw [placeText, List.append_assoc, List.append_assoc, List.head?_append_of_ne_nil _ howner]

theorem getLast?_placeText (href : ref ≠ []) :
    (placeText owner repo path ++ '@' :: ref).getLast? = ref.getLast? := by
  rw [List.append_cons, List.getLast?_append_of_ne_nil _ href]

end

namespace WrittenParts

variable {owner repo ref : Text} {path : Option Text} (h : WrittenParts owner repo path ref)
include h

/-- The owner ends at the slash that was written behind it. -/
theorem isOwner : IsOwner owner (repo ++ (pathText path ++ '@' :: ref))
    (placeText owner repo path ++ '@' :: ref) where
  eq_append := by simp [placeText]
  ne_nil := h.owner_ne_nil
  slash_not_mem_tail := fun hmem => (h.owner_mem '/' (List.mem_of_mem_tail hmem)).1 rfl

/-- **No other split is preferred to the one that was written.** -/
theorem splitRemote?_placeText :
    splitRemote? (placeText owner repo path ++ '@' :: ref) = some (owner, repo, path, ref) := by
  have howner := h.isOwner
  obtain ⟨c, name, rfl⟩ := List.exists_cons_of_ne_nil h.repo_ne_nil
  have hplain : ∀ d ∈ name, d ≠ '/' ∧ d ≠ '@' := fun d hd =>
    ⟨(h.repo_mem d (List.mem_cons_of_mem c hd)).1, (h.repo_mem d (List.mem_cons_of_mem c hd)).2.1⟩
  have hrepo := splitRepo?_append hplain
    (splitPath?_pathText h.path_ne_nil h.ref_ne_nil
      fun hpath hmem => h.ref_mem hpath (List.dropLast_subset _ hmem))
  exact splitRemote?_eq_some_iff.mpr ⟨c, name, _, howner, rfl, hrepo⟩

theorem trim_placeText :
    Text.trim (placeText owner repo path ++ '@' :: ref)
      = placeText owner repo path ++ '@' :: ref := by
  refine Text.trim_eq_self (fun c hc => ?_) fun c hc => ?_
  · rw [head?_placeText h.owner_ne_nil] at hc
    exact (h.owner_head c hc).2
  · rw [getLast?_placeText h.ref_ne_nil] at hc
    exact h.ref_last c hc

/-- A slash of the scheme of images would stand at the beginning of the repository. -/
theorem not_dockerScheme_isPrefix :
    ¬ dockerScheme <+: placeText owner repo path ++ '@' :: ref := by
  rw [h.isOwner.dockerScheme_isPrefix_iff, List.head?_append_of_ne_nil _ h.repo_ne_nil]
  exact fun hscheme => (h.repo_mem '/' (List.mem_of_head? hscheme.2)).1 rfl

theorem not_newline_mem : '\n' ∉ placeText owner repo path ++ '@' :: ref := by
  have hpath : '\n' ∉ pathText path := by
    cases path with
    | none => exact List.not_mem_nil
    | some p =>
      rw [pathText, List.mem_cons, not_or]
      exact ⟨by decide, (h.path_mem p rfl).2⟩
  simp only [placeText, List.mem_append, List.mem_cons, not_or]
  exact ⟨⟨⟨fun hmem => (h.owner_mem _ hmem).2.2 rfl, by decide,
    fun hmem => (h.repo_mem _ hmem).2.2 rfl⟩, hpath⟩, by decide, h.ref_single⟩

end WrittenParts

/-- **Reading gives back the parts that were written.**  The path is completed to that of a YAML
file: a path of none is that of the definition file at the top, and any other path that is not the
path of a YAML file is that of a folder with a definition file. -/
theorem ofUses_placeText {owner repo ref : Text} {path : Option Text}
    (h : WrittenParts owner repo path ref) :
    ∃ file, ofUses (placeText owner repo path ++ '@' :: ref) = .remote file ∧
      file.owner = owner ∧ file.repo = repo ∧ file.ref = ref ∧
      (".yml".toList <:+ file.path ∨ ".yaml".toList <:+ file.path) ∧
      (path = none → file.path = "action.yml".toList) ∧
      ∀ p, path = some p → file.path
        = if ".yml".toList <:+ p ∨ ".yaml".toList <:+ p then p else p ++ "/action.yml".toList := by
  refine ⟨⟨owner, repo, definitionPath path, ref⟩, ?_, rfl, rfl, rfl, ?_, ?_, ?_⟩
  · rw [ofUses_eq_remote_iff, h.trim_placeText]
    refine ⟨h.not_dockerScheme_isPrefix, ?_, h.not_newline_mem, path, h.splitRemote?_placeText, rfl⟩
    rw [head?_placeText h.owner_ne_nil]
    exact fun hdot => (h.owner_head '.' hdot).1 rfl
  · cases path with
    | none => exact .inl (by decide : ".yml".toList <:+ definitionFile)
    | some p =>
      rw [definitionPath_some]
      split
      · next hyaml => exact hyaml
      · exact .inl ((by decide : ".yml".toList <:+ '/' :: definitionFile).trans
          (List.suffix_append p _))
  · rintro rfl
    rfl
  · rintro p rfl
    exact definitionPath_some p

/-- Slashes in a path and in a ref, and slashes and at-signs in a ref without a path. -/
theorem ofUses_placeText_branches :
    WrittenParts "org".toList "repo".toList (some "tools/lint".toList) "fix/lint".toList ∧
      WrittenParts "org".toList "repo".toList none "next@2/lint".toList ∧
      (∃ file, ofUses "org/repo/tools/lint@fix/lint".toList = .remote file ∧
        file.path = "tools/lint/action.yml".toList ∧ file.ref = "fix/lint".toList) ∧
      ∃ file, ofUses "org/repo@next@2/lint".toList = .remote file ∧
        file.path = "action.yml".toList ∧ file.ref = "next@2/lint".toList := by
  have hfolder :
      WrittenParts "org".toList "repo".toList (some "tools/lint".toList) "fix/lint".toList := by
    constructor <;> simp [Text.isBlank]
  have htop : WrittenParts "org".toList "repo".toList none "next@2/lint".toList := by
    constructor <;> simp [Text.isBlank]
  refine ⟨hfolder, htop, ?_, ?_⟩
  · obtain ⟨file, hfile, -, -, href, -, -, hpath⟩ := ofUses_placeText hfolder
    exact ⟨file, hfile, (hpath _ rfl).trans (by decide), href⟩
  · obtain ⟨file, hfile, -, -, href, -, hpath, -⟩ := ofUses_placeText htop
    exact ⟨file, hfile, hpath rfl, href⟩

end WorkflowLens.Reference
