import WorkflowLens.Index.Steps
import WorkflowLens.Proofs.Index.Collect
import WorkflowLens.Proofs.Index.Scopes
import WorkflowLens.Proofs.Tree.Keys

/-!
# Listing and looking up

A path such as `steps.build` is checked against the list of steps and then answered by a look-up.
The two find their nodes in different ways: the list is collected from all nodes `steps` anywhere
in the document and kept by the roles of nodes, and a look-up follows keys from the root.  In a
tree without repeated keys they meet the same nodes, because a role determines the keys above a
node.

For steps they differ in one thing.  The list takes the entries that are steps, which have no
name, and the look-up takes any entry.  In a sequence no entry has a name.  But `steps` may be a
mapping by mistake, and then an entry with a name is not listed and can still be found.

* `Tree.CarriesId`, `Tree.HidesStep`: the entries with an id, and when one of them that is no step
  comes before all that are.
* `Index.job?_eq_some_iff`, `Index.mem_names_jobs_iff`: what is found and what is listed as a job.
* `Index.step?_eq_some_iff`, `Index.get?_steps_eq_some_iff`: what is found and what is listed as a
  step.
* `Index.lookup_spec`: listed jobs and steps are found, and the step found is the one that is
  listed unless it is hidden.
-/

namespace WorkflowLens

namespace Tree

/-- An entry of the node `steps` of an owner has an id. -/
def CarriesId (t : Tree) (owner : Nat) (id : String) (n : Nat) : Prop :=
  ∃ steps, t.parent? n = some steps ∧ t.name? steps = some "steps" ∧
    t.parent? steps = some owner ∧ t.childValue? n "id" = some id

/-- An entry that is no step has an id and comes before all steps with it. -/
def HidesStep (t : Tree) (owner : Nat) (id : String) : Prop :=
  ∃ m, t.CarriesId owner id m ∧ t.isStep m = false ∧
    ∀ n, t.CarriesId owner id n → t.isStep n = true → m < n

/-- What a step is listed with: its name, or else the action that it uses. -/
def stepLabel (t : Tree) (n : Nat) : String :=
  ((t.childValue? n "name").or (t.childValue? n "uses")).getD ""

/-- The steps that are collected for an owner, in the order in which they are met. -/
def collectedSteps (t : Tree) (owner : Nat) : List Nat :=
  ((t.nodesWhere root (t.hasName "steps")).flatMap t.children).filter fun n =>
    t.isStep n && (t.parent? n).bind t.parent? == some owner

/-! ## Roles by parents -/

theorem isJob_iff_exists {t : Tree} {n : Nat} :
    t.isJob n = true ↔ (t.name? n).isSome = true ∧
      ∃ jobs, t.parent? n = some jobs ∧ t.name? jobs = some "jobs" ∧
        t.parent? jobs = some root := by
  simp [isJob, isTopLevel, hasName, isRoot, Option.any_eq_true]

theorem isStep_iff_exists {t : Tree} {n : Nat} :
    t.isStep n = true ↔ t.name? n = none ∧
      ∃ steps, t.parent? n = some steps ∧ t.name? steps = some "steps" ∧
        ∃ owner, t.parent? steps = some owner ∧ t.ownsSteps owner = true := by
  simp [isStep, hasName, Option.any_eq_true]

namespace IsPreorder

variable {t : Tree} (h : t.IsPreorder)
include h

/-! ## The collected steps -/

theorem mem_collectedSteps_iff {owner n : Nat} :
    n ∈ t.collectedSteps owner ↔
      t.isStep n = true ∧ (t.parent? n).bind t.parent? = some owner := by
  simp only [collectedSteps, List.mem_filter, List.mem_flatMap, h.mem_nodesWhere_root_iff,
    Bool.and_eq_true, beq_iff_eq, and_iff_right_iff_imp]
  rintro ⟨hstep, -⟩
  obtain ⟨-, steps, hparent, hname, -⟩ := isStep_iff_exists.mp hstep
  have hsize := h.parent_lt_size hparent
  exact ⟨steps, ⟨hsize, hasName_iff.mpr hname⟩, (h.mem_children_iff hsize).mpr hparent⟩

variable (hkeys : t.HasDistinctKeys)
include hkeys

/-- Many nodes may be called `steps`, but only one of them stands under the owner, so the steps
that are collected are in order. -/
theorem pairwise_lt_collectedSteps (owner : Nat) :
    (t.collectedSteps owner).Pairwise (· < ·) := by
  refine ((h.pairwise_flatMap_children _).filter _).imp_of_mem ?_
  rintro n m hn hm ⟨a, b, ha, hb, hlt⟩
  -- the node `steps` above a step that is collected
  have hsteps : ∀ {n a}, n ∈ t.collectedSteps owner → t.parent? n = some a →
      t.parent? a = some owner ∧ t.name? a = some "steps" := by
    intro n a hn ha
    obtain ⟨hstep, howner⟩ := h.mem_collectedSteps_iff.mp hn
    obtain ⟨-, steps, hparent, hname, -⟩ := isStep_iff_exists.mp hstep
    obtain rfl := Option.some.inj (hparent.symm.trans ha)
    rw [ha, Option.bind_some] at howner
    exact ⟨howner, hname⟩
  obtain ⟨haowner, haname⟩ := hsteps hn ha
  obtain ⟨hbowner, hbname⟩ := hsteps hm hb
  have hsame := h.eq_of_name?_eq hkeys haowner hbowner haname hbname
  omega

/-! ## The entries with an id -/

/-- The node `steps` of an owner is the only one, so its entries with an id are all there are. -/
theorem find?_entries_eq_some_iff {owner steps n : Nat} {id : String} (howner : owner < t.size)
    (hsteps : t.child? owner "steps" = some steps) :
    ((t.children steps).find? fun m => t.childValue? m "id" == some id) = some n ↔
      IsLeast {m | t.CarriesId owner id m} n := by
  rw [h.child?_eq_some_iff hkeys howner] at hsteps
  have hsize := lt_size_of_parent hsteps.1
  have hset : {m | m ∈ t.children steps ∧ (t.childValue? m "id" == some id) = true}
      = {m | t.CarriesId owner id m} := by
    ext m
    rw [Set.mem_ofPred_eq, Set.mem_ofPred_eq, beq_iff_eq, h.mem_children_iff hsize]
    constructor
    · rintro ⟨hparent, hid⟩
      exact ⟨steps, hparent, hsteps.2, hsteps.1, hid⟩
    · rintro ⟨other, hparent, hname, hup, hid⟩
      rw [h.eq_of_name?_eq hkeys hup hsteps.1 hname hsteps.2] at hparent
      exact ⟨hparent, hid⟩
  rw [find?_eq_some_iff_isLeast (h.pairwise_lt_children hsize), hset]

end IsPreorder

theorem CarriesId.exists_isLeast {t : Tree} {owner n : Nat} {id : String}
    (h : t.CarriesId owner id n) : ∃ first, IsLeast {m | t.CarriesId owner id m} first := by
  classical
  exact ⟨Nat.find ⟨n, h⟩, Nat.find_spec ⟨n, h⟩, fun m hm => Nat.find_min' ⟨n, h⟩ hm⟩

/-- An entry under an owner of steps is a step if it has no name. -/
theorem CarriesId.isStep_iff {t : Tree} {owner n : Nat} {id : String} (h : t.CarriesId owner id n)
    (howner : t.ownsSteps owner = true) : t.isStep n = true ↔ t.name? n = none := by
  obtain ⟨steps, hparent, hname, hup, -⟩ := h
  rw [isStep_iff_exists, and_iff_left]
  exact ⟨steps, hparent, hname, owner, hup, howner⟩

/-- In a sequence all entries are steps. -/
theorem CarriesId.isStep_of_sequence {t : Tree} {text : Text} (ht : t.IsLocated text)
    {owner n : Nat} {id : String} (h : t.CarriesId owner id n) (howner : t.ownsSteps owner = true)
    (hsequence : ∀ steps, t.name? steps = some "steps" → t.parent? steps = some owner →
      t.shape steps = .sequence) : t.isStep n = true := by
  rw [h.isStep_iff howner]
  obtain ⟨steps, hparent, hname, hup, -⟩ := h
  by_contra hnamed
  obtain ⟨name, hnamed⟩ := Option.ne_none_iff_exists'.mp hnamed
  have hmapping := ht.shape_parent_of_name hnamed hparent
  rw [hsequence steps hname hup] at hmapping
  cases hmapping

end Tree

namespace Index

open WorkflowLens.Tree (root)

section Lookup

variable {t : Tree} (h : t.IsPreorder) (hkeys : t.HasDistinctKeys) {ix : Index}
  (htree : ix.tree = some t)
include h htree

/-! ## Jobs -/

theorem mem_names_jobs_iff {job : String} :
    job ∈ ix.jobs.names ↔ ∃ n, t.isJob n = true ∧ t.name? n = some job := by
  have hcollect : ix.jobs
      = t.collect "jobs" t.isJob t.name? fun n => (t.childValue? n "name").getD "" := by
    rw [jobs, Index.collect, dictionary, htree]
    rfl
  rw [hcollect, h.mem_names_collect_iff]
  constructor
  · rintro ⟨_, n, -, -, hjob, hname⟩
    exact ⟨n, hjob, hname⟩
  · rintro ⟨n, hjob, hname⟩
    obtain ⟨-, jobs, hparent, hjobs, -⟩ := Tree.isJob_iff_exists.mp hjob
    exact ⟨jobs, n, hjobs, hparent, hjob, hname⟩

include hkeys in
theorem job?_eq_some_iff {job : String} {n : Nat} :
    ix.job? job = some n ↔ t.isJob n = true ∧ t.name? n = some job := by
  rw [job?, inTree?, htree, Option.bind_some, Option.bind_eq_some_iff]
  constructor
  · rintro ⟨jobs, hjobs, hn⟩
    rw [h.child?_eq_some_iff (p := root) hkeys h.size_pos] at hjobs
    rw [h.child?_eq_some_iff hkeys (Tree.lt_size_of_parent hjobs.1)] at hn
    have hnamed : (t.name? n).isSome = true := by
      rw [hn.2]
      rfl
    exact ⟨Tree.isJob_iff_exists.mpr ⟨hnamed, jobs, hn.1, hjobs.2, hjobs.1⟩, hn.2⟩
  · rintro ⟨hjob, hname⟩
    obtain ⟨-, jobs, hparent, hjobs, htop⟩ := Tree.isJob_iff_exists.mp hjob
    exact ⟨jobs, (h.child?_eq_some_iff (p := root) hkeys h.size_pos).mpr ⟨htop, hjobs⟩,
      (h.child?_eq_some_iff hkeys (h.parent_lt_size hparent)).mpr ⟨hparent, hname⟩⟩

/-! ## Steps -/

include hkeys in
theorem ownsSteps_of_stepsOwner? {job : Option String} {owner : Nat}
    (howner : ix.stepsOwner? job = some owner) : owner < t.size ∧ t.ownsSteps owner = true := by
  unfold stepsOwner? at howner
  split at howner
  · rw [inTree?, htree, Option.bind_some,
      h.child?_eq_some_iff (p := root) hkeys h.size_pos] at howner
    refine ⟨Tree.lt_size_of_parent howner.1, ?_⟩
    rw [Tree.ownsSteps, Tree.hasName_iff.mpr howner.2, Tree.isTopLevel, howner.1, Option.any_some]
    simp [Tree.isRoot]
  · rw [job?_eq_some_iff h hkeys htree] at howner
    obtain ⟨hjob, -⟩ := howner
    obtain ⟨-, jobs, hparent, -⟩ := Tree.isJob_iff_exists.mp hjob
    exact ⟨Tree.lt_size_of_parent hparent, by rw [Tree.ownsSteps, hjob, Bool.true_or]⟩
  · cases howner

include hkeys in
/-- The look-up finds the first entry with the id, be it a step or not. -/
theorem step?_eq_some_iff {job : Option String} {id : String} {n : Nat} :
    ix.step? job id = some n ↔
      ∃ owner, ix.stepsOwner? job = some owner ∧ IsLeast {m | t.CarriesId owner id m} n := by
  rw [step?, inTree?, htree, Option.bind_some, Option.bind_eq_some_iff]
  refine exists_congr fun owner => and_congr_right fun howner => ?_
  have hsize := (ownsSteps_of_stepsOwner? h hkeys htree howner).1
  rw [Option.bind_eq_some_iff]
  constructor
  · rintro ⟨steps, hsteps, hfound⟩
    exact (h.find?_entries_eq_some_iff hkeys hsize hsteps).mp hfound
  · intro hleast
    obtain ⟨steps, -, hname, hup, -⟩ := hleast.1
    have hsteps := (h.child?_eq_some_iff hkeys hsize).mpr ⟨hup, hname⟩
    exact ⟨steps, hsteps, (h.find?_entries_eq_some_iff hkeys hsize hsteps).mpr hleast⟩

include hkeys in
/-- The list has the first step with the id. -/
theorem get?_steps_eq_some_iff {job : Option String} {id label : String} :
    (ix.steps job).get? id = some label ↔
      ∃ owner first, ix.stepsOwner? job = some owner ∧
        IsLeast {m | t.CarriesId owner id m ∧ t.isStep m = true} first ∧
        t.stepLabel first = label := by
  rw [steps]
  cases howner : ix.stepsOwner? job with
  | none => simp [Dictionary.get?, Dictionary.empty]
  | some owner =>
    have hset : {m | m ∈ t.collectedSteps owner ∧ (t.childValue? m "id" == some id) = true}
        = {m | t.CarriesId owner id m ∧ t.isStep m = true} := by
      ext m
      rw [Set.mem_ofPred_eq, Set.mem_ofPred_eq, h.mem_collectedSteps_iff, beq_iff_eq]
      constructor
      · rintro ⟨⟨hstep, hup⟩, hid⟩
        obtain ⟨-, steps, hparent, hsteps, -⟩ := Tree.isStep_iff_exists.mp hstep
        rw [hparent, Option.bind_some] at hup
        exact ⟨⟨steps, hparent, hsteps, hup, hid⟩, hstep⟩
      · rintro ⟨⟨steps, hparent, -, hup, hid⟩, hstep⟩
        rw [hparent, Option.bind_some]
        exact ⟨⟨hstep, hup⟩, hid⟩
    have hget : (ix.collect "steps"
          (fun t n => t.isStep n && (t.parent? n).bind t.parent? == some owner)
          (fun t n => t.childValue? n "id")
          fun t n => ((t.childValue? n "name").or (t.childValue? n "uses")).getD "").get? id
        = ((t.collectedSteps owner).find? fun n => t.childValue? n "id" == some id).map
            t.stepLabel := by
      rw [Index.collect, dictionary, htree, Option.map_some, Option.getD_some, Tree.get?_collect]
      rfl
    simp only [hget, Option.map_eq_some_iff, Option.some.injEq, exists_and_left, exists_eq_left',
      Tree.find?_eq_some_iff_isLeast (h.pairwise_lt_collectedSteps hkeys owner), hset]

include hkeys in
/-- An id that is listed is found, and the look-up leads to the step that is listed unless that is
hidden. -/
theorem exists_step?_of_mem_names_steps {job : Option String} {id : String}
    (hid : id ∈ (ix.steps job).names) :
    ∃ owner first found, ix.stepsOwner? job = some owner ∧
      IsLeast {n | t.CarriesId owner id n ∧ t.isStep n = true} first ∧
      (ix.steps job).get? id = some (t.stepLabel first) ∧
      ix.step? job id = some found ∧ (found = first ↔ ¬ t.HidesStep owner id) := by
  obtain ⟨label, hlabel⟩ := Dictionary.mem_names_iff.mp hid
  obtain ⟨owner, first, howner, hfirst, rfl⟩ := (get?_steps_eq_some_iff h hkeys htree).mp hlabel
  obtain ⟨found, hfound⟩ := hfirst.1.1.exists_isLeast
  refine ⟨owner, first, found, howner, hfirst, hlabel,
    (step?_eq_some_iff h hkeys htree).mpr ⟨owner, howner, hfound⟩, ?_⟩
  have hle : found ≤ first := hfound.2 hfirst.1.1
  constructor
  · rintro rfl ⟨m, hm, -, hbefore⟩
    have hlt := hbefore found hfound.1 hfirst.1.2
    have hge : found ≤ m := hfound.2 hm
    omega
  · intro hshown
    by_contra hne
    have hlt : found < first := Nat.lt_of_le_of_ne hle hne
    refine hshown ⟨found, hfound.1, ?_, fun n hn hstep =>
      Nat.lt_of_lt_of_le hlt (hfirst.2 ⟨hn, hstep⟩)⟩
    rw [← Bool.not_eq_true]
    intro hstep
    have hge : first ≤ found := hfirst.2 ⟨hfound.1, hstep⟩
    omega

end Lookup

/-- **Listing and looking up agree, except for hidden steps.**  The jobs that are listed are those
that are found.  An id that is listed as that of a step is found; the list has the first step with
the id, and the look-up finds that step unless an entry before it hides it.  If `steps` is a
sequence, then no step is hidden and all ids that are found are listed.  In an action the job does
not matter. -/
theorem lookup_spec {t : Tree} {text : Text} (h : t.IsLocated text) (hkeys : t.HasDistinctKeys)
    {ix : Index} (htree : ix.tree = some t) :
    (∀ job, job ∈ ix.jobs.names ↔ ∃ n, ix.job? job = some n) ∧
    (∀ job id, id ∈ (ix.steps job).names → ∃ owner first found,
      ix.stepsOwner? job = some owner ∧
      IsLeast {n | t.CarriesId owner id n ∧ t.isStep n = true} first ∧
      (ix.steps job).get? id = some (t.stepLabel first) ∧
      ix.step? job id = some found ∧ (found = first ↔ ¬ t.HidesStep owner id)) ∧
    (∀ job owner block, ix.stepsOwner? job = some owner → t.child? owner "steps" = some block →
      t.shape block = .sequence → ∀ id, ¬ t.HidesStep owner id ∧
        (id ∈ (ix.steps job).names ↔ ∃ found, ix.step? job id = some found)) ∧
    (ix.kind = .action → ∀ job other, ix.steps job = ix.steps other ∧
      ∀ id, ix.step? job id = ix.step? other id) := by
  have hpre := h.isPreorder
  refine ⟨fun job => ?_, fun job id hid => exists_step?_of_mem_names_steps hpre hkeys htree hid,
    fun job owner block howner hblock hsequence id => ?_, fun haction job other => ?_⟩
  · rw [mem_names_jobs_iff hpre htree]
    exact exists_congr fun n => (job?_eq_some_iff hpre hkeys htree).symm
  · obtain ⟨hsize, howns⟩ := ownsSteps_of_stepsOwner? hpre hkeys htree howner
    rw [hpre.child?_eq_some_iff hkeys hsize] at hblock
    have hshape : ∀ steps, t.name? steps = some "steps" → t.parent? steps = some owner →
        t.shape steps = .sequence := by
      intro steps hname hparent
      rw [hpre.eq_of_name?_eq hkeys hparent hblock.1 hname hblock.2]
      exact hsequence
    have hsteps : ∀ n, t.CarriesId owner id n → t.isStep n = true := fun n hn =>
      hn.isStep_of_sequence h howns hshape
    constructor
    · rintro ⟨m, hm, hno, -⟩
      rw [hsteps m hm] at hno
      cases hno
    constructor
    · intro hid
      obtain ⟨_, _, found, -, -, -, hfound, -⟩ :=
        exists_step?_of_mem_names_steps hpre hkeys htree hid
      exact ⟨found, hfound⟩
    · rintro ⟨found, hfound⟩
      obtain ⟨other, hother, hleast⟩ := (step?_eq_some_iff hpre hkeys htree).mp hfound
      rw [howner, Option.some.injEq] at hother
      subst hother
      have hfirst : IsLeast {n | t.CarriesId owner id n ∧ t.isStep n = true} found :=
        ⟨⟨hleast.1, hsteps found hleast.1⟩, fun n hn => hleast.2 hn.1⟩
      exact Dictionary.mem_names_iff.mpr ⟨t.stepLabel found,
        (get?_steps_eq_some_iff hpre hkeys htree).mpr ⟨owner, found, howner, hfirst, rfl⟩⟩
  · have howner : ix.stepsOwner? job = ix.stepsOwner? other := by
      simp only [stepsOwner?, haction]
    refine ⟨by rw [steps, steps, howner], fun id => ?_⟩
    rw [step?, step?, howner]

/-- A workflow with one step. -/
def oneStepText : Text := "jobs: \x7bj: \x7bsteps: [\x7bid: a, name: X\x7d]\x7d\x7d".toList

/-- The tree of `oneStepText`. -/
def oneStepTree : Tree :=
  ⟨#[⟨none, none, .mapping, none, [1], 0, 7, Span.upTo 0 38⟩,
    ⟨some "jobs", none, .mapping, some 0, [2], 0, 7, Span.upTo 0 38⟩,
    ⟨some "j", none, .mapping, some 1, [3], 0, 7, Span.upTo 7 38⟩,
    ⟨some "steps", none, .sequence, some 2, [4], 0, 7, Span.upTo 11 38⟩,
    ⟨none, none, .mapping, some 3, [5, 6], 0, 7, Span.upTo 19 38⟩,
    ⟨some "id", some "a", .scalar, some 4, [], 0, 6, Span.upTo 20 27⟩,
    ⟨some "name", some "X", .scalar, some 4, [], 1, 7, Span.upTo 27 38⟩]⟩

/-- The step is listed with its name, and it is found. -/
theorem lookup_oneStepTree :
    let ix : Index := ⟨some oneStepTree, .workflow, 0⟩
    oneStepTree.IsLocated oneStepText ∧ oneStepTree.HasDistinctKeys ∧
      "a" ∈ (ix.steps (some "j")).names ∧ ix.step? (some "j") "a" = some 4 ∧
      ∃ owner first, ix.stepsOwner? (some "j") = some owner ∧
        IsLeast {n | oneStepTree.CarriesId owner "a" n ∧ oneStepTree.isStep n = true} first ∧
        (ix.steps (some "j")).get? "a" = some (oneStepTree.stepLabel first) ∧
        ix.step? (some "j") "a" = some first := by
  intro ix
  have hlocated : oneStepTree.IsLocated oneStepText :=
    ⟨.mapping [(.string "jobs", .mapping [(.string "j", .mapping [(.string "steps", .sequence
      [.mapping [(.string "id", .string "a"), (.string "name", .string "X")]])])])], _, rfl, rfl⟩
  have hkeys : oneStepTree.HasDistinctKeys := by decide
  have hspec := lookup_spec hlocated hkeys (show ix.tree = some oneStepTree from rfl)
  obtain ⟨owner, first, found, howner, hfirst, hget, hfound, hiff⟩ :=
    hspec.2.1 (some "j") "a" (by decide)
  have hblock : oneStepTree.child? 2 "steps" = some 3 := by decide
  have hshown := (hspec.2.2.1 (some "j") 2 3 (by decide) hblock (by decide) "a").1
  have hsame : owner = 2 := Option.some.inj (howner.symm.trans (by decide))
  rw [hsame] at hiff
  rw [hiff.mpr hshown] at hfound
  exact ⟨hlocated, hkeys, by decide, by decide, owner, first, howner, hfirst, hget, hfound⟩

/-- A workflow in which `steps` is a mapping, and an entry with a name has the id of a step. -/
def hiddenStepText : Text :=
  ("jobs:\n  j:\n    steps:\n      foo: \x7bid: a, name: X\x7d\n"
    ++ "      ~: \x7bid: a, name: Y\x7d\n").toList

/-- The tree of `hiddenStepText`. -/
def hiddenStepTree : Tree :=
  ⟨#[⟨none, none, .mapping, none, [1], 0, 10, Span.upTo 0 76⟩,
    ⟨some "jobs", none, .mapping, some 0, [2], 0, 10, Span.upTo 0 76⟩,
    ⟨some "j", none, .mapping, some 1, [3], 0, 10, Span.upTo 8 76⟩,
    ⟨some "steps", none, .mapping, some 2, [4, 7], 0, 10, Span.upTo 15 76⟩,
    ⟨some "foo", none, .mapping, some 3, [5, 6], 0, 7, Span.upTo 28 59⟩,
    ⟨some "id", some "a", .scalar, some 4, [], 0, 6, Span.upTo 34 41⟩,
    ⟨some "name", some "X", .scalar, some 4, [], 1, 7, Span.upTo 41 59⟩,
    ⟨none, none, .mapping, some 3, [8, 9], 1, 10, Span.upTo 59 76⟩,
    ⟨some "id", some "a", .scalar, some 7, [], 0, 9, Span.upTo 60 67⟩,
    ⟨some "name", some "Y", .scalar, some 7, [], 1, 10, Span.upTo 67 76⟩]⟩

/-- **The step that is listed is not the entry that is found.** -/
theorem step?_hiddenStepTree :
    let ix : Index := ⟨some hiddenStepTree, .workflow, 0⟩
    Index.ofText hiddenStepText .workflow 0 = .ok ix ∧ hiddenStepTree.HasDistinctKeys ∧
      (ix.steps (some "j")).get? "a" = some "Y" ∧ ix.step? (some "j") "a" = some 4 ∧
      hiddenStepTree.childValue? 4 "name" = some "X" ∧ hiddenStepTree.isStep 4 = false ∧
      hiddenStepTree.isStep 7 = true ∧ hiddenStepTree.childValue? 7 "id" = some "a" ∧
      hiddenStepTree.childValue? 7 "name" = some "Y" := by
  intro ix
  have hdecode : Tree.decode? hiddenStepText = .ok (some hiddenStepTree) := by decide +kernel
  refine ⟨?_, by decide, by decide, by decide, by decide, by decide, by decide, by decide,
    by decide⟩
  rw [Index.ofText, hdecode]
  rfl

end Index

end WorkflowLens
