import WorkflowLens.Index.Basic
import WorkflowLens.Proofs.Index.Interface

/-!
# Placement by the beginning of a location

Which job and which step a node belongs to, and whether it belongs to the outputs that a workflow
declares for its callers, is looked for on the way up, by tests on a node, its parent and so on.
But jobs can be called `jobs`, and below a step everything may recur: inputs called `steps` with
items, or a mapping `outputs` in a mapping `workflow_call`.

The tests end at the root, so a node that passes one has a location that is fixed up to the name of
a job and the number of a step.  Such locations are at most four steps long, and a node has an
ancestor that passes the test exactly if its location begins with one of them.  What comes later in
the location does not matter.

* `Tree.IsPreorder.isInTriggerOutputs_iff`: the outputs for callers by the beginning of a location.
* `Scope.ofNode_congr`, `Tree.isInTriggerOutputs_congr`: four steps are enough.
* `placement_spec`: job, step and outputs for callers are read off the beginning of a location.
-/

namespace WorkflowLens

open WorkflowLens.Tree (Step)

/-- The location `on.workflow_call.outputs` of the outputs for callers, where `on` may have been
read as `true`. -/
def IsTriggerOutputsPath (l : List Step) : Prop :=
  ∃ on, (on = "on" ∨ on = "true") ∧ l = [.key on, .key "workflow_call", .key "outputs"]

namespace Tree.IsPreorder

variable {t : Tree} (h : t.IsPreorder) {n : Nat}
include h

/-- If a role is a matter of the location, then a node has the role or belongs to a node with it
exactly if its location begins with one of those locations. -/
theorem any_ancestorsOrSelf_iff {role : Nat → Bool} {IsPath : List Step → Prop}
    (hrole : ∀ a < t.size, role a = true ↔ IsPath (t.location a)) (hn : n < t.size) :
    (t.ancestorsOrSelf n).any role = true ↔ ∃ l, IsPath l ∧ l <+: t.location n := by
  have hsize : ∀ a ∈ t.ancestorsOrSelf n, a < t.size := fun a ha =>
    h.lt_size_of_mem_ancestorsOrSelf hn ha
  rw [List.any_eq_true]
  constructor
  · rintro ⟨a, ha, hrolea⟩
    exact ⟨t.location a, (hrole a (hsize a ha)).mp hrolea,
      (h.isPrefix_location_iff hn).mpr ⟨a, ha, rfl⟩⟩
  · rintro ⟨l, hl, hbegins⟩
    obtain ⟨a, ha, rfl⟩ := (h.isPrefix_location_iff hn).mp hbegins
    exact ⟨a, ha, (hrole a (hsize a ha)).mpr hl⟩

/-- The node of the outputs for callers is known by its location. -/
theorem isTriggerOutputs_iff (hn : n < t.size) :
    (t.hasName "outputs" n && t.isWorkflowCallChild n) = true ↔
      IsTriggerOutputsPath (t.location n) := by
  rw [Bool.and_eq_true, hasName_iff, isWorkflowCallChild_eq, h.isFieldOf_iff hn,
    isTriggerField_iff, IsTriggerOutputsPath]
  refine exists_congr fun on => ?_
  simp [isCall]

theorem isInTriggerOutputs_iff (hn : n < t.size) :
    t.isInTriggerOutputs n = true ↔ ∃ l, IsTriggerOutputsPath l ∧ l <+: t.location n :=
  h.any_ancestorsOrSelf_iff (fun _ ha => h.isTriggerOutputs_iff ha) hn

end Tree.IsPreorder

/-! ## Four steps are enough -/

theorem IsTriggerOutputsPath.length_le {l : List Step} (h : IsTriggerOutputsPath l) :
    l.length ≤ 4 := by
  obtain ⟨on, -, rfl⟩ := h
  simp

theorem IsStepsOwnerPath.length_le {l : List Step} (h : IsStepsOwnerPath l) : l.length ≤ 2 := by
  rcases h with ⟨job, rfl⟩ | rfl
  · simp
  · simp

section congr

variable {t u : Tree} (ht : t.IsPreorder) (hu : u.IsPreorder) {n m : Nat} (hn : n < t.size)
  (hm : m < u.size) (hsame : (t.location n).take 4 = (u.location m).take 4)
include hsame

/-- Two locations with the same first four steps begin with the same short locations. -/
theorem isPrefix_location_congr {l : List Step} (hlength : l.length ≤ 4) :
    l <+: t.location n ↔ l <+: u.location m := by
  have htake : ∀ k : List Step, l <+: k ↔ l <+: k.take 4 := fun k => by
    rw [List.prefix_take_iff, and_iff_left hlength]
  rw [htake, hsame, ← htake]

include ht hu hn hm

/-- **The first four steps of a location tell the scope.** -/
theorem Scope.ofNode_congr : Scope.ofNode t n = Scope.ofNode u m := by
  have hjob : (Scope.ofNode t n).job = (Scope.ofNode u m).job := by
    refine Option.ext fun job => ?_
    rw [Scope.job_ofNode_eq_some_iff ht hn, Scope.job_ofNode_eq_some_iff hu hm]
    exact isPrefix_location_congr hsame (by simp)
  have hstep : (Scope.ofNode t n).step = (Scope.ofNode u m).step := by
    refine Option.ext fun i => ?_
    rw [Scope.step_ofNode_eq_some_iff ht hn, Scope.step_ofNode_eq_some_iff hu hm]
    refine exists_congr fun owner => and_congr_right fun howner => ?_
    refine isPrefix_location_congr hsame ?_
    rw [List.length_append]
    exact Nat.add_le_add_right howner.length_le 2
  exact (Scope.mk.injEq ..).mpr ⟨hjob, hstep⟩

/-- The first four steps of a location tell whether a node belongs to the outputs for callers. -/
theorem Tree.isInTriggerOutputs_congr : t.isInTriggerOutputs n = u.isInTriggerOutputs m := by
  rw [Bool.eq_iff_iff, ht.isInTriggerOutputs_iff hn, hu.isInTriggerOutputs_iff hm]
  exact exists_congr fun l => and_congr_right fun hl => isPrefix_location_congr hsame hl.length_le

end congr

/-! ## Placement -/

/-- What an index says of the node at its caret is what its tree says of the node. -/
theorem Index.isInTriggerOutputs_eq {ix : Index} {t : Tree} {n : Nat} (htree : ix.tree = some t)
    (hnode : ix.currentNode? = some n) : ix.isInTriggerOutputs = t.isInTriggerOutputs n := by
  rw [currentNode?, nodeAt?, htree, Option.map_some, Option.some.injEq] at hnode
  rw [isInTriggerOutputs, atCaret?, inTree?, htree, Option.bind_some, hnode]
  rfl

/-- **Placement is read off the beginning of a location.**  The job of a node is the one whose
location the node's location begins with, the step likewise, and the caret is in the outputs for
callers if the location of its node begins with theirs.  All this is told by the first four steps,
so nothing deeper changes it. -/
theorem placement_spec {t : Tree} {text : Text} (h : t.IsLocated text) {n : Nat}
    (hn : n < t.size) :
    (∀ job, (Scope.ofNode t n).job = some job ↔ [.key "jobs", .key job] <+: t.location n) ∧
    (∀ i, (Scope.ofNode t n).step = some i ↔
      (∃ job, [.key "jobs", .key job, .key "steps", .item i] <+: t.location n) ∨
        [.key "runs", .key "steps", .item i] <+: t.location n) ∧
    (∀ ix : Index, ix.tree = some t → ix.currentNode? = some n →
      (ix.isInTriggerOutputs = true ↔ ∃ on, (on = "on" ∨ on = "true") ∧
        [.key on, .key "workflow_call", .key "outputs"] <+: t.location n)) ∧
    ∀ (u : Tree) (other : Text) (m : Nat), u.IsLocated other → m < u.size →
      (t.location n).take 4 = (u.location m).take 4 →
      Scope.ofNode t n = Scope.ofNode u m ∧ t.isInTriggerOutputs n = u.isInTriggerOutputs m := by
  have hpre := h.isPreorder
  refine ⟨fun job => Scope.job_ofNode_eq_some_iff hpre hn, fun i => ?_, fun ix htree hnode => ?_,
    fun u other m hu hm hsame => ?_⟩
  · rw [Scope.step_ofNode_eq_some_iff hpre hn]
    constructor
    · rintro ⟨_, ⟨job, rfl⟩ | rfl, hbegins⟩
      · exact .inl ⟨job, hbegins⟩
      · exact .inr hbegins
    · rintro (⟨job, hbegins⟩ | hbegins)
      · exact ⟨[.key "jobs", .key job], .inl ⟨job, rfl⟩, hbegins⟩
      · exact ⟨[.key "runs"], .inr rfl, hbegins⟩
  · rw [Index.isInTriggerOutputs_eq htree hnode, hpre.isInTriggerOutputs_iff hn]
    constructor
    · rintro ⟨_, ⟨on, hon, rfl⟩, hbegins⟩
      exact ⟨on, hon, hbegins⟩
    · rintro ⟨on, hon, hbegins⟩
      exact ⟨_, ⟨on, hon, rfl⟩, hbegins⟩
  · exact ⟨Scope.ofNode_congr hpre hu.isPreorder hn hm hsame,
      Tree.isInTriggerOutputs_congr hpre hu.isPreorder hn hm hsame⟩

/-- A workflow whose trigger is read as `true`, with a job called `steps` that has a step with
steps of its own. -/
def recurringText : Text :=
  ("true: \x7bworkflow_call: \x7boutputs: \x7bjobs: a\x7d\x7d\x7d\n"
    ++ "jobs: \x7bsteps: \x7bsteps: [\x7bruns: \x7bsteps: [b]\x7d\x7d]\x7d\x7d").toList

/-- The tree of `recurringText`. -/
def recurringTree : Tree :=
  ⟨#[⟨none, none, .mapping, none, [1, 5], 0, 12, Span.upTo 0 90⟩,
    ⟨some "true", none, .mapping, some 0, [2], 0, 5, Span.upTo 0 44⟩,
    ⟨some "workflow_call", none, .mapping, some 1, [3], 0, 5, Span.upTo 7 44⟩,
    ⟨some "outputs", none, .mapping, some 2, [4], 0, 5, Span.upTo 23 44⟩,
    ⟨some "jobs", some "a", .scalar, some 3, [], 0, 5, Span.upTo 33 44⟩,
    ⟨some "jobs", none, .mapping, some 0, [6], 1, 12, Span.upTo 44 90⟩,
    ⟨some "steps", none, .mapping, some 5, [7], 0, 12, Span.upTo 51 90⟩,
    ⟨some "steps", none, .sequence, some 6, [8], 0, 12, Span.upTo 59 90⟩,
    ⟨none, none, .mapping, some 7, [9], 0, 12, Span.upTo 67 90⟩,
    ⟨some "runs", none, .mapping, some 8, [10], 0, 12, Span.upTo 68 90⟩,
    ⟨some "steps", none, .sequence, some 9, [11], 0, 12, Span.upTo 75 90⟩,
    ⟨none, some "b", .scalar, some 10, [], 0, 12, Span.upTo 83 90⟩]⟩

/-- The innermost entry of the outputs is in the outputs for callers, and the innermost item of the
step is in that step and in the job `steps`, like the step itself. -/
theorem placement_recurringTree :
    let ix : Index := ⟨some recurringTree, .workflow, 34⟩
    recurringTree.IsLocated recurringText ∧ 4 < recurringTree.size ∧ 11 < recurringTree.size ∧
      ix.tree = some recurringTree ∧ ix.currentNode? = some 4 ∧ ix.isInTriggerOutputs = true ∧
      Scope.ofNode recurringTree 11 = ⟨some "steps", some 0⟩ ∧ 8 < recurringTree.size ∧
      (recurringTree.location 11).take 4 = (recurringTree.location 8).take 4 ∧
      Scope.ofNode recurringTree 11 = Scope.ofNode recurringTree 8 := by
  intro ix
  have hlocated : recurringTree.IsLocated recurringText :=
    ⟨.mapping [
      (.bool true, .mapping [(.string "workflow_call", .mapping [(.string "outputs",
        .mapping [(.string "jobs", .string "a")])])]),
      (.string "jobs", .mapping [(.string "steps", .mapping [(.string "steps", .sequence [
        .mapping [(.string "runs", .mapping [(.string "steps", .sequence [.string "b"])])]])])])],
      _, rfl, rfl⟩
  have hnode : ix.currentNode? = some 4 := by decide
  have hsame : (recurringTree.location 11).take 4 = (recurringTree.location 8).take 4 := by decide
  obtain ⟨-, -, htrigger, -⟩ := placement_spec (n := 4) hlocated (by decide)
  obtain ⟨hjob, hstep, -, hcongr⟩ := placement_spec (n := 11) hlocated (by decide)
  have hscope : Scope.ofNode recurringTree 11 = ⟨some "steps", some 0⟩ :=
    (Scope.mk.injEq ..).mpr ⟨(hjob "steps").mpr (by decide),
      (hstep 0).mpr (.inl ⟨"steps", by decide⟩)⟩
  exact ⟨hlocated, by decide, by decide, rfl, hnode,
    (htrigger ix rfl hnode).mpr ⟨"true", .inr rfl, by decide⟩, hscope, by decide, hsame,
    (hcongr recurringTree recurringText 8 hlocated (by decide) hsame).1⟩

end WorkflowLens
