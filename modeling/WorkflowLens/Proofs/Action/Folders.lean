import WorkflowLens.Proofs.Action.Kinds
import WorkflowLens.Proofs.Action.Segments

/-!
# Slashes at the end of a folder

A folder may be written with slashes at its end, which do not make it another folder.  The
definition file is looked for under a path that is put together from the folder and the name of
the file, so the slashes have to go before that.

For folders of the project they do.  The one thing that can come between is a blank at the end of
the folder: in front of slashes it stays, and without them it is taken for a blank around the text.

For folders of repositories the path is taken as it is written up to the at-sign, slashes included.
Each of them is found again in front of the name of the file, so no two numbers of slashes lead to
the same path, whatever the folder and the ref are.

* `IsFolderText`: the texts that name a folder of a repository.
* `IsFolderText.exists_ofUses_eq_remote`: the path that they are read with.
* `ofUses_eq_project`, `projectFolder_append_slashes`: the path of a folder of the project.
* `path?_slashes_spec`: which slashes change a path.
-/

namespace WorkflowLens.Reference

/-- Slashes at the end of a folder. -/
def slashes (k : Nat) : Text := List.replicate k '/'

theorem eq_slash_of_mem_slashes {k : Nat} {c : Char} (h : c ∈ slashes k) : c = '/' :=
  List.eq_of_mem_replicate h

theorem slashes_succ (k : Nat) : slashes (k + 1) = slashes k ++ ['/'] :=
  List.replicate_succ'

@[simp] theorem length_slashes (k : Nat) : (slashes k).length = k :=
  List.length_replicate

/-! ## Folders of repositories -/

/-- The text is read with this owner and this repository.  After them a folder is written that does
not end with a slash or like the path of a YAML file, and no at-sign but the one in front of the ref
can end it. -/
structure IsFolderText (owner repo dir ref : Text) : Prop where
  trim_eq : Text.trim (placeText owner repo (some dir) ++ '@' :: ref)
    = placeText owner repo (some dir) ++ '@' :: ref
  exists_ofUses_eq : ∃ path ref', ofUses (placeText owner repo (some dir) ++ '@' :: ref)
    = .remote ⟨owner, repo, path, ref'⟩
  dir_ne_nil : dir ≠ []
  at_not_mem_dir : '@' ∉ dir
  getLast?_dir : dir.getLast? ≠ some '/'
  not_isYamlFile : ¬ (".yml".toList <:+ dir ∨ ".yaml".toList <:+ dir)
  ref_ne_nil : ref ≠ []

/-- Whether a path is that of a YAML file is seen behind its last separator. -/
theorem isYamlFile_append_cons {c : Char} (hc : c ∉ ".yaml".toList) (s t : Text) :
    isYamlFile (s ++ c :: t) = isYamlFile t := by
  have hyml : c ∉ ".yml".toList := fun hmem =>
    hc ((by decide : ".yml".toList ⊆ ".yaml".toList) hmem)
  rw [Bool.eq_iff_iff]
  unfold isYamlFile
  simp only [Bool.or_eq_true, Text.endsWith_iff, Text.isSuffix_append_cons_iff hyml,
    Text.isSuffix_append_cons_iff hc]

/-- Before a ref an at-sign counts, either the first one, or a later one for which it is a part of
the path. -/
theorem exists_splitRef?_at_eq {ref : Text} (hne : ref ≠ []) :
    ∃ extra ref', splitRef? ('@' :: ref) = some (extra, ref') ∧
      (extra = [] ∨ ∃ s, extra = '@' :: s) ∧ ('@' ∉ ref → extra = [] ∧ ref' = ref) := by
  rw [splitRef?]
  cases hlater : splitRef? ref with
  | none => exact ⟨[], ref, if_pos ⟨rfl, hne⟩, .inl rfl, fun _ => ⟨rfl, rfl⟩⟩
  | some parts =>
    refine ⟨'@' :: parts.1, parts.2, rfl, .inr ⟨parts.1, rfl⟩, fun hat => ?_⟩
    have hnone := splitRef?_eq_none_iff.mpr fun hmem => hat (List.dropLast_subset ref hmem)
    rw [hlater] at hnone
    cases hnone

namespace IsFolderText

variable {owner repo dir ref : Text} (h : IsFolderText owner repo dir ref)
include h

/-- The owner and the repository of a text with a folder, as they are written. -/
theorem exists_repo_eq : '/' ∉ owner.tail ∧ owner ≠ [] ∧
    ∃ c name, repo = c :: name ∧ ∀ d ∈ name, d ≠ '/' ∧ d ≠ '@' := by
  obtain ⟨path, ref', hread⟩ := h.exists_ofUses_eq
  obtain ⟨-, -, -, path', hsplit, -⟩ := ofUses_eq_remote_iff.mp hread
  rw [h.trim_eq] at hsplit
  obtain ⟨c, name, rest, howner, hrepo, hname⟩ := splitRemote?_eq_some_iff.mp hsplit
  dsimp only at howner hrepo
  refine ⟨howner.slash_not_mem_tail, howner.ne_nil, c, name, hrepo, fun d hd => ⟨?_, ?_⟩⟩
  · rintro rfl
    -- the folder begins behind the first slash that comes after the owner's
    obtain ⟨before, after, rfl⟩ := List.append_of_mem hd
    obtain ⟨rfl, rfl, -⟩ := of_splitRepo?_eq_append_slash hname
    have htext := howner.eq_append
    rw [(splitRepo?_sound hname).1, hrepo] at htext
    simp [placeText, pathText] at htext
  · rintro rfl
    exact at_not_mem_of_splitRepo?_eq hname hd

/-- The slashes go into the path. -/
theorem exists_splitRemote?_eq_slashes : ∃ extra ref',
    (extra = [] ∨ ∃ s, extra = '@' :: s) ∧ ('@' ∉ ref → extra = [] ∧ ref' = ref) ∧
      ∀ k, splitRemote? (placeText owner repo (some (dir ++ slashes k)) ++ '@' :: ref)
        = some (owner, repo, some (dir ++ slashes k ++ extra), ref') := by
  obtain ⟨hslash, hne, c, name, rfl, hname⟩ := h.exists_repo_eq
  obtain ⟨extra, ref', hsplit, hextra, hat⟩ := exists_splitRef?_at_eq h.ref_ne_nil
  refine ⟨extra, ref', hextra, hat, fun k => ?_⟩
  obtain ⟨d, dir', hdir⟩ := List.exists_cons_of_ne_nil h.dir_ne_nil
  have hpath : splitPath? ('/' :: (dir ++ slashes k ++ '@' :: ref))
      = some (some (dir ++ slashes k ++ extra), ref') := by
    rw [hdir, List.cons_append, List.cons_append, splitPath?,
      splitRef?_append_of_eq_some hsplit (dir' ++ slashes k)]
    rfl
  refine splitRemote?_eq_some_iff.mpr ⟨c, name, name ++ '/' :: (dir ++ slashes k ++ '@' :: ref),
    ⟨by simp [placeText, pathText], hne, hslash⟩, rfl, splitRepo?_append hname hpath⟩

/-- What comes after the slashes in the path does not depend on them. -/
theorem exists_definitionPath_eq {extra : Text} (hextra : extra = [] ∨ ∃ s, extra = '@' :: s) :
    ∃ tail, (extra = [] → tail = '/' :: definitionFile) ∧
      ∀ k, definitionPath (some (dir ++ slashes k ++ extra)) = dir ++ slashes k ++ tail := by
  obtain rfl | ⟨s, rfl⟩ := hextra
  · refine ⟨'/' :: definitionFile, fun _ => rfl, fun k => ?_⟩
    have hfolder : isYamlFile (dir ++ slashes k) = false := by
      cases k with
      | zero =>
        rw [slashes, List.replicate_zero, List.append_nil, ← Bool.not_eq_true, isYamlFile,
          Bool.or_eq_true, Text.endsWith_iff, Text.endsWith_iff]
        exact h.not_isYamlFile
      | succ k =>
        rw [slashes_succ, ← List.append_assoc, isYamlFile_append_cons (by decide)]
        decide
    rw [List.append_nil, definitionPath, hfolder]
    rfl
  · refine ⟨'@' :: s ++ if isYamlFile s then [] else '/' :: definitionFile,
      fun hnil => absurd hnil (List.cons_ne_nil '@' s), fun k => ?_⟩
    rw [definitionPath, isYamlFile_append_cons (by decide)]
    split <;> simp

/-- Slashes at the end of the folder do not make a text one of another kind. -/
theorem not_dockerScheme_isPrefix (k : Nat) :
    ¬ dockerScheme <+: placeText owner repo (some (dir ++ slashes k)) ++ '@' :: ref := by
  obtain ⟨hslash, hne, c, name, rfl, -⟩ := h.exists_repo_eq
  have howner : ∀ path : Option Text, IsOwner owner (c :: (name ++ (pathText path ++ '@' :: ref)))
      (placeText owner (c :: name) path ++ '@' :: ref) := fun path =>
    ⟨by simp [placeText], hne, hslash⟩
  obtain ⟨path, ref', hread⟩ := h.exists_ofUses_eq
  have hdocker := (ofUses_eq_remote_iff.mp hread).1
  rw [h.trim_eq, (howner _).dockerScheme_isPrefix_iff] at hdocker
  rw [(howner _).dockerScheme_isPrefix_iff]
  exact hdocker

theorem trim_slashes (k : Nat) :
    Text.trim (placeText owner repo (some (dir ++ slashes k)) ++ '@' :: ref)
      = placeText owner repo (some (dir ++ slashes k)) ++ '@' :: ref := by
  have howner := h.exists_repo_eq.2.1
  have hends := Text.trim_eq_self_iff.mp h.trim_eq
  rw [head?_placeText howner, getLast?_placeText h.ref_ne_nil] at hends
  rw [Text.trim_eq_self_iff, head?_placeText howner, getLast?_placeText h.ref_ne_nil]
  exact hends

/-- **The slashes of a folder of a repository are kept in the path.** -/
theorem exists_ofUses_eq_remote : ∃ tail ref',
    ('@' ∉ ref → tail = '/' :: definitionFile ∧ ref' = ref) ∧
      ∀ k, ofUses (placeText owner repo (some (dir ++ slashes k)) ++ '@' :: ref)
        = .remote ⟨owner, repo, dir ++ slashes k ++ tail, ref'⟩ := by
  obtain ⟨extra, ref', hextra, hat, hsplit⟩ := h.exists_splitRemote?_eq_slashes
  obtain ⟨tail, htail, hpath⟩ := h.exists_definitionPath_eq hextra
  refine ⟨tail, ref', fun hnot => ⟨htail (hat hnot).1, (hat hnot).2⟩, fun k => ?_⟩
  obtain ⟨-, howner, -⟩ := h.exists_repo_eq
  obtain ⟨path₀, ref₀, hread⟩ := h.exists_ofUses_eq
  obtain ⟨-, hdot, hline, -⟩ := ofUses_eq_remote_iff.mp hread
  rw [h.trim_eq] at hdot hline
  rw [ofUses_eq_remote_iff, h.trim_slashes k]
  refine ⟨h.not_dockerScheme_isPrefix k, ?_, ?_, _, hsplit k, (hpath k).symm⟩
  · rw [head?_placeText howner] at hdot ⊢
    exact hdot
  · simpa [placeText, pathText, slashes] using hline

end IsFolderText

/-! ## Folders of the project -/

/-- A text that begins with a dot names a file of the project. -/
theorem ofTrimmed_eq_project {t : Text} (hdot : t.head? = some '.') :
    ofTrimmed t = .project (projectPath t) := by
  obtain ⟨s, rfl⟩ := List.head?_eq_some_iff.mp hdot
  have hdocker : Text.stripPrefix? dockerScheme ('.' :: s) = none := by
    rw [Text.stripPrefix?_eq_none_iff]
    exact fun h => absurd (List.cons_prefix_cons.mp h).1 (by decide)
  rw [ofTrimmed, hdocker]
  exact if_pos rfl

theorem ofUses_eq_project {t : Text} (hdot : (Text.trim t).head? = some '.') :
    ofUses t = .project (if namesAction t then projectFolder t ++ '/' :: definitionFile
      else projectFolder t) := by
  have hproject : ofUses t = .project (projectPath (Text.trim t)) := ofTrimmed_eq_project hdot
  rw [hproject, eq_of_ofUses_eq_project hproject]

theorem head?_trim_of_dot {t : Text} (hdot : t.head? = some '.') :
    (Text.trim t).head? = some '.' := by
  obtain ⟨s, rfl⟩ := List.head?_eq_some_iff.mp hdot
  have hblank : Text.isBlank '.' = false := by decide
  rw [Text.trim, Text.trimStart, List.dropWhile_cons_of_neg (by rw [hblank]; decide), Text.trimEnd,
    Text.dropEndWhile_eq_rdropWhile, Text.rdropWhile_cons, hblank]
  simp

/-- Slashes at the end of a folder of the project are dropped. -/
theorem projectFolder_append_slashes {t : Text} (hdot : t.head? = some '.') (k : Nat) :
    projectFolder (t ++ slashes (k + 1)) = Text.dropEndWhile (· == '/') t := by
  have htrim : Text.trim (t ++ slashes (k + 1)) = t ++ slashes (k + 1) := by
    refine Text.trim_eq_self (fun c hc => ?_) fun c hc => ?_
    · rw [List.head?_append, hdot] at hc
      cases hc
      decide
    · rw [slashes_succ, ← List.append_assoc, List.getLast?_concat] at hc
      cases hc
      decide
  rw [projectFolder, htrim]
  exact Text.dropEndWhile_append_of_forall
    (fun c hc => beq_iff_eq.mpr (eq_slash_of_mem_slashes hc)) t

/-- Without slashes at its end a folder of the project is the same, unless a blank stands there. -/
theorem projectFolder_eq_iff {t : Text} (hdot : t.head? = some '.') :
    projectFolder t = Text.dropEndWhile (· == '/') t ↔
      ∀ c ∈ t.getLast?, Text.isBlank c = false := by
  have hhead : ∀ c ∈ t.head?, Text.isBlank c = false := by
    rw [hdot]
    intro c hc
    cases hc
    decide
  constructor
  · intro h c hc
    by_contra hblank
    -- a folder that ends with a blank is not shortened, but the text is
    have hself : Text.dropEndWhile (· == '/') t = t := by
      refine Text.dropEndWhile_eq_self_iff.mpr fun d hd => ?_
      rw [Option.mem_unique hd hc, beq_eq_false_iff_ne]
      rintro rfl
      exact hblank (by decide)
    have hprefix : projectFolder t <+: Text.trim t := List.rdropWhile_prefix _ _
    rw [h, hself] at hprefix
    have htrim := hprefix.eq_of_length_le (Text.length_trim_le t)
    exact hblank ((Text.trim_eq_self_iff.mp htrim.symm).2 c hc)
  · intro hlast
    rw [projectFolder, Text.trim_eq_self hhead hlast]

/-- The path of a folder of the project that no mark makes one of workflows. -/
theorem path?_of_project {t : Text} (hdot : t.head? = some '.') (hmark : ¬ IsMarked t) :
    (ofUses t).path? = some (projectFolder t ++ '/' :: definitionFile) := by
  rw [ofUses_eq_project (head?_trim_of_dot hdot), if_pos (namesAction_eq_true_iff.mpr hmark)]
  rfl

/-! ## Which slashes change a path -/

/-- **Slashes at the end of a folder of a repository always change the path, and slashes at the end
of a folder of the project never do.**  The path of a folder of a repository is the folder with the
slashes, followed by what is the same for every number of them: the name of the definition file, or,
if an at-sign in the ref goes on with the path, what comes before the last one.  The path of a
folder of the project, in which no workflow is marked, is the folder without slashes and the name of
the definition file, unless a blank stands at the end of the folder, which is a part of it only in
front of slashes. -/
theorem path?_slashes_spec (dir : Text) :
    (∀ owner repo ref, IsFolderText owner repo dir ref →
      ∃ tail ref', ('@' ∉ ref → tail = "/action.yml".toList ∧ ref' = ref) ∧ ∀ k,
        ofUses (placeText owner repo (some (dir ++ slashes k)) ++ '@' :: ref)
          = .remote ⟨owner, repo, dir ++ slashes k ++ tail, ref'⟩ ∧
        ((ofUses (placeText owner repo (some (dir ++ slashes k)) ++ '@' :: ref)).path?
            = (ofUses (placeText owner repo (some dir) ++ '@' :: ref)).path? ↔ k = 0)) ∧
    (∀ k, dir.head? = some '.' → ¬ IsMarked (dir ++ slashes k) →
      ((ofUses (dir ++ slashes k)).path? = (ofUses dir).path? ↔
        k = 0 ∨ ∀ c ∈ dir.getLast?, Text.isBlank c = false) ∧
      ((∀ c ∈ dir.getLast?, Text.isBlank c = false) → (ofUses (dir ++ slashes k)).path?
        = some (Text.dropEndWhile (· == '/') dir ++ "/action.yml".toList))) := by
  constructor
  · intro owner repo ref h
    obtain ⟨tail, ref', htail, hread⟩ := h.exists_ofUses_eq_remote
    refine ⟨tail, ref', htail, fun k => ⟨hread k, ?_⟩⟩
    have hnone := hread 0
    rw [show dir ++ slashes 0 = dir from List.append_nil dir] at hnone
    rw [hread k, hnone]
    constructor
    · intro hpath
      have hlength := congrArg List.length (Option.some.inj hpath)
      simpa using hlength
    · rintro rfl
      rw [show dir ++ slashes 0 = dir from List.append_nil dir]
  · intro k hdot hmark
    have hdir : ¬ IsMarked dir := fun h =>
      hmark (List.IsInfix.trans h (List.prefix_append dir _).isInfix)
    have hdot' : (dir ++ slashes k).head? = some '.' := by rw [List.head?_append, hdot]; rfl
    rw [path?_of_project hdot' hmark, path?_of_project hdot hdir]
    cases k with
    | zero =>
      rw [show dir ++ slashes 0 = dir from List.append_nil dir]
      exact ⟨by simp, fun hlast => by rw [(projectFolder_eq_iff hdot).mpr hlast]; rfl⟩
    | succ k =>
      rw [projectFolder_append_slashes hdot, ← projectFolder_eq_iff hdot, Option.some.injEq,
        List.append_cancel_right_eq]
      exact ⟨by simp [eq_comm], fun _ => rfl⟩

/-- Two slashes at the end of one folder in a repository and in the project. -/
theorem path?_toolsFolder :
    IsFolderText "org".toList "repo".toList "tools/lint".toList "fix/lint".toList ∧
      (ofUses "org/repo/tools/lint//@fix/lint".toList).path?
        ≠ (ofUses "org/repo/tools/lint@fix/lint".toList).path? ∧
      ¬ IsMarked ("./tools/lint".toList ++ slashes 2) ∧
      (ofUses "./tools/lint//".toList).path? = (ofUses "./tools/lint".toList).path? := by
  have hfolder : IsFolderText "org".toList "repo".toList "tools/lint".toList "fix/lint".toList :=
    ⟨by decide +kernel, ⟨"tools/lint/action.yml".toList, "fix/lint".toList, by decide +kernel⟩,
      by decide, by decide, by decide, by decide, by decide⟩
  have hmark : ¬ IsMarked ("./tools/lint".toList ++ slashes 2) := by decide +kernel
  refine ⟨hfolder, fun hpath => ?_, hmark, ?_⟩
  · obtain ⟨tail, ref', -, hall⟩ := (path?_slashes_spec _).1 _ _ _ hfolder
    exact absurd ((hall 2).2.mp hpath) (by decide)
  · have hlast : ∀ c ∈ "./tools/lint".toList.getLast?, Text.isBlank c = false := by
      simp [Text.isBlank]
    exact ((path?_slashes_spec _).2 2 rfl hmark).1.mpr (.inr hlast)

/-- **One slash at the end of a folder of a repository leads to another definition file.**  Behind a
blank it does so for a folder of the project, too. -/
theorem path?_folderWithSlash :
    (ofUses "owner/repo/dir@ref".toList).path? = some "dir/action.yml".toList ∧
      (ofUses "owner/repo/dir/@ref".toList).path? = some "dir//action.yml".toList ∧
      (ofUses "./dir ".toList).path? = some "./dir/action.yml".toList ∧
      (ofUses "./dir /".toList).path? = some "./dir /action.yml".toList := by
  decide +kernel

end WorkflowLens.Reference
