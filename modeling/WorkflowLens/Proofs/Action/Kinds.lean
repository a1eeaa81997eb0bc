import WorkflowLens.Proofs.Action.References
import WorkflowLens.Proofs.Text.Occurrences

/-!
# Which references name actions

Whether a text names an action or a workflow is decided twice.  Reading a reference decides it by
the path: a path that is missing or that of a folder gets the name of the file that defines an
action.  `namesAction` decides it by a mark, the folder `workflows`, that it looks for anywhere in
the text.  The second answer says how the file is read that the first answer has chosen.

For files of the project the two agree, because there reading itself goes by the mark.  For files of
repositories they do not: the mark may stand in the path of a folder, and it may stand in the ref,
which is no part of any path.  No mark reaches over the at-sign in front of the ref, so these are
the only two ways, and they can be told apart.

* `IsRemoteText.isMarked_iff`: the mark stands before the at-sign or in the ref.
* `namesAction_eq_true_iff_of_project`: the two answers for files of the project.
* `NamesFolder.namesAction_eq_true_iff`: exactly when the two answers agree on a folder.
* `namesAction_spec`: this, and exactly when the ref matters.
-/

namespace WorkflowLens.Reference

/-- Whether the mark of workflows stands in a text. -/
def IsMarked (t : Text) : Prop := "/workflows/".toList <:+: t

instance : DecidablePred IsMarked := fun t =>
  inferInstanceAs (Decidable ("/workflows/".toList <:+: t))

theorem namesAction_eq_true_iff {t : Text} : namesAction t = true ↔ ¬ IsMarked t := by
  unfold namesAction IsMarked
  rw [Bool.not_eq_true', ← Bool.not_eq_true, Text.contains_iff]

theorem isMarked_trim_iff {t : Text} : IsMarked (Text.trim t) ↔ IsMarked t := by
  have hmark : "/workflows/".toList.any Text.isBlank = false := by decide +kernel
  refine Text.infix_trim_iff (fun c hc => ?_) t
  simpa using List.any_eq_false.mp hmark c hc

/-- Blanks around a text do not change what it names. -/
theorem namesAction_trim (t : Text) : namesAction (Text.trim t) = namesAction t := by
  rw [Bool.eq_iff_iff, namesAction_eq_true_iff, namesAction_eq_true_iff, isMarked_trim_iff]

/-! ## Files of repositories -/

/-- The text is read as a file of a repository, and these are the parts that are written in it. -/
structure IsRemoteText (uses owner repo : Text) (path : Option Text) (ref : Text) : Prop where
  trim_eq : Text.trim uses = placeText owner repo path ++ '@' :: ref
  ofUses_eq : ofUses uses = .remote ⟨owner, repo, definitionPath path, ref⟩

theorem exists_isRemoteText {uses : Text} {file : RemoteFile} (h : ofUses uses = .remote file) :
    ∃ path, IsRemoteText uses file.owner file.repo path file.ref := by
  obtain ⟨path, htext, hpath, -⟩ := exists_of_ofUses_eq_remote h
  exact ⟨path, htext, by rw [h, ← hpath]⟩

namespace IsRemoteText

variable {uses owner repo ref : Text} {path : Option Text}

theorem isMarked_iff (h : IsRemoteText uses owner repo path ref) :
    IsMarked uses ↔ IsMarked (placeText owner repo path) ∨ IsMarked ref := by
  rw [← isMarked_trim_iff, h.trim_eq]
  exact Text.infix_append_cons_iff (by decide) _ _

/-- A file of a repository is taken for that of an action if there is no mark on either side of
the at-sign. -/
theorem namesAction_eq_true_iff (h : IsRemoteText uses owner repo path ref) :
    namesAction uses = true ↔ ¬ IsMarked (placeText owner repo path) ∧ ¬ IsMarked ref := by
  rw [Reference.namesAction_eq_true_iff, h.isMarked_iff, not_or]

/-- The parts that are written in a text are determined by it. -/
theorem placeText_eq {owner' repo' ref' : Text} {path' : Option Text}
    (h : IsRemoteText uses owner repo path ref) (h' : IsRemoteText uses owner' repo' path' ref') :
    placeText owner' repo' path' = placeText owner repo path ∧ ref' = ref := by
  have hfile := h'.ofUses_eq.symm.trans h.ofUses_eq
  simp only [remote.injEq, RemoteFile.mk.injEq] at hfile
  obtain ⟨rfl, rfl, -, rfl⟩ := hfile
  exact ⟨List.append_cancel_right (h'.trim_eq.symm.trans h.trim_eq), rfl⟩

end IsRemoteText

/-! ## Files of the project -/

/-- The folder that a text names, if it names one of the project. -/
def projectFolder (uses : Text) : Text := Text.dropEndWhile (· == '/') (Text.trim uses)

theorem eq_of_ofUses_eq_project {uses path : Text} (h : ofUses uses = .project path) :
    path = if namesAction uses then projectFolder uses ++ '/' :: definitionFile
      else projectFolder uses := by
  unfold ofUses ofTrimmed at h
  split at h
  · cases h
  · split at h
    · cases h
      unfold projectPath
      rw [namesAction_trim]
      rfl
    · split at h
      · cases h
      · split at h <;> cases h

/-- A reference to a file of the project names the definition file of a folder exactly if the text
names an action. -/
theorem namesAction_eq_true_iff_of_project {uses path : Text} (h : ofUses uses = .project path) :
    namesAction uses = true ↔ path = projectFolder uses ++ '/' :: definitionFile := by
  have hpath := eq_of_ofUses_eq_project h
  by_cases haction : namesAction uses = true
  · simp only [haction, if_true] at hpath
    exact ⟨fun _ => hpath, fun _ => haction⟩
  · simp only [haction] at hpath
    refine ⟨fun h => absurd h haction, fun hadded => ?_⟩
    -- the path is too short for the name of a file
    have hlength := congrArg List.length (hpath.symm.trans hadded)
    simp at hlength

/-! ## Folders -/

/-- The text names a folder: reading adds the name of the definition file to what is written. -/
inductive NamesFolder (uses : Text) : Prop
  /-- A repository as a whole. -/
  | repository {owner repo ref : Text} (h : IsRemoteText uses owner repo none ref)
  /-- A path in a repository that is not that of a YAML file. -/
  | folder {owner repo path ref : Text} (h : IsRemoteText uses owner repo (some path) ref)
      (hadded : definitionPath (some path) = path ++ '/' :: definitionFile)
  /-- A folder of the project. -/
  | project (h : ofUses uses = .project (projectFolder uses ++ '/' :: definitionFile))

/-- A folder is taken for that of an action exactly if it is one of the project, or if no mark
stands on either side of the at-sign. -/
theorem NamesFolder.namesAction_eq_true_iff {uses : Text} (hfolder : NamesFolder uses) :
    namesAction uses = true ↔ ∀ owner repo path ref, IsRemoteText uses owner repo path ref →
      ¬ IsMarked (placeText owner repo path) ∧ ¬ IsMarked ref := by
  have hremote : ∀ {owner repo path ref}, IsRemoteText uses owner repo path ref →
      (namesAction uses = true ↔ ∀ owner repo path ref, IsRemoteText uses owner repo path ref →
        ¬ IsMarked (placeText owner repo path) ∧ ¬ IsMarked ref) := by
    intro owner repo path ref h
    refine ⟨fun haction _ _ _ _ h' => h'.namesAction_eq_true_iff.mp haction, fun hall => ?_⟩
    exact h.namesAction_eq_true_iff.mpr (hall _ _ _ _ h)
  cases hfolder with
  | repository h => exact hremote h
  | folder h _ => exact hremote h
  | project h =>
    refine ⟨fun _ _ _ _ _ h' => ?_, fun _ => ?_⟩
    · cases h.symm.trans h'.ofUses_eq
    · exact (namesAction_eq_true_iff_of_project h).mpr rfl

/-- **When the two answers agree, and when the ref matters.**  A text that names a folder of a
repository is taken for that of an action exactly if no mark stands before the at-sign or in the
ref; for folders of the project the answers always agree.  Of the other texts that name a file of a
repository the same is true.  Two of them that differ in the ref only are taken for the same exactly
if a mark stands before the at-sign, or in both refs or in neither of them. -/
theorem namesAction_spec (uses : Text) :
    (NamesFolder uses →
      (namesAction uses = true ↔ ∀ owner repo path ref, IsRemoteText uses owner repo path ref →
        ¬ IsMarked (placeText owner repo path) ∧ ¬ IsMarked ref)) ∧
    (∀ path, ofUses uses = .project path →
      (namesAction uses = true ↔ path = projectFolder uses ++ '/' :: definitionFile)) ∧
    (∀ file, ofUses uses = .remote file →
      ∃ path, IsRemoteText uses file.owner file.repo path file.ref ∧
        (namesAction uses = true ↔
          ¬ IsMarked (placeText file.owner file.repo path) ∧ ¬ IsMarked file.ref)) ∧
    (∀ other owner repo path ref ref', IsRemoteText uses owner repo path ref →
      IsRemoteText other owner repo path ref' →
      (namesAction uses = namesAction other ↔
        IsMarked (placeText owner repo path) ∨ (IsMarked ref ↔ IsMarked ref'))) := by
  refine ⟨NamesFolder.namesAction_eq_true_iff, fun _ => namesAction_eq_true_iff_of_project,
    ?_, ?_⟩
  · intro file h
    obtain ⟨path, hpath⟩ := exists_isRemoteText h
    exact ⟨path, hpath, hpath.namesAction_eq_true_iff⟩
  · intro other owner repo path ref ref' h hother
    rw [Bool.eq_iff_iff, h.namesAction_eq_true_iff, hother.namesAction_eq_true_iff]
    tauto

/-! ### Marks that name no workflow

Refs are names of branches, which may contain slashes, and a folder `workflows` may hold actions.
-/

/-- A folder of a repository at two refs without a mark. -/
theorem namesAction_unmarkedRefs :
    NamesFolder "org/repo/tools@v1".toList ∧ namesAction "org/repo/tools@v1".toList = true ∧
      namesAction "org/repo/tools@v1".toList = namesAction "org/repo/tools@main/x".toList := by
  have hfirst : IsRemoteText "org/repo/tools@v1".toList "org".toList "repo".toList
      (some "tools".toList) "v1".toList := ⟨by decide +kernel, by decide +kernel⟩
  have hsecond : IsRemoteText "org/repo/tools@main/x".toList "org".toList "repo".toList
      (some "tools".toList) "main/x".toList := ⟨by decide +kernel, by decide +kernel⟩
  have hfolder : NamesFolder "org/repo/tools@v1".toList := .folder hfirst (by decide +kernel)
  refine ⟨hfolder, ((namesAction_spec _).1 hfolder).mpr ?_, ?_⟩
  · intro owner repo path ref h
    rw [(hfirst.placeText_eq h).1, (hfirst.placeText_eq h).2]
    exact ⟨by decide +kernel, by decide +kernel⟩
  · exact ((namesAction_spec _).2.2.2 _ _ _ _ _ _ hfirst hsecond).mpr (.inr (by decide +kernel))

/-- **The first two texts name a repository as a whole and differ in the ref only, but the one whose
ref is a branch under `x/workflows` is taken for that of a workflow.  So is a folder under
`workflows`, although the file that is looked for in it is that of an action.** -/
theorem not_namesAction_markedRef :
    NamesFolder "a/b@x/workflows/y".toList ∧ namesAction "a/b@x/workflows/y".toList = false ∧
      (IsRemoteText "a/b@x/workflows/y".toList "a".toList "b".toList none
          "x/workflows/y".toList ∧
        IsRemoteText "a/b@v1".toList "a".toList "b".toList none "v1".toList ∧
        namesAction "a/b@x/workflows/y".toList ≠ namesAction "a/b@v1".toList) ∧
      NamesFolder "a/b/workflows/c@v1".toList ∧
      namesAction "a/b/workflows/c@v1".toList = false := by
  have hmarked : IsRemoteText "a/b@x/workflows/y".toList "a".toList "b".toList none
      "x/workflows/y".toList := ⟨by decide +kernel, by decide +kernel⟩
  have hplain : IsRemoteText "a/b@v1".toList "a".toList "b".toList none "v1".toList :=
    ⟨by decide +kernel, by decide +kernel⟩
  have hfolder : IsRemoteText "a/b/workflows/c@v1".toList "a".toList "b".toList
      (some "workflows/c".toList) "v1".toList := ⟨by decide +kernel, by decide +kernel⟩
  exact ⟨.repository hmarked, by decide +kernel, ⟨hmarked, hplain, by decide +kernel⟩,
    .folder hfolder (by decide +kernel), by decide +kernel⟩

end WorkflowLens.Reference
