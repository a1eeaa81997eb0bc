import WorkflowLens.Index.Role
import WorkflowLens.Proofs.Tree.Locations

/-!
# Scopes by locations

A scope is the name of a job and the number of a step, and it is compared with nodes of another
tree.  What it means is a matter of locations: a node has the scope of a job or of a step if its
location begins with that of the job or the step.

The roles are read off the location from its end: a job is a node at `jobs.<job>`, and a step is a
node at `jobs.<job>.steps[i]` or `runs.steps[i]`, where an entry without a name counts by its
place as well.  No node with a role is inside of another one with that role.  So the nearest
ancestor with the role, which the code looks for, is the only one, and to have it is to have a
prefix.

* `Tree.IsPreorder.isJob_iff`, `Tree.IsPreorder.isStep_iff`: jobs and steps by their locations.
* `Tree.IsPreorder.exists_find?_ancestorsOrSelf`: the nearest ancestor with a role by a prefix.
* `Scope.job_ofNode_eq_some_iff`, `Scope.ofNode_eq_jobStep_iff`, `Scope.ofNode_eq_runsStep_iff`:
  the scope of a node by the prefixes of its location.
* `Scope.sees_ofNode_iff`: which declarations of one tree count at a node of another one.
-/

namespace WorkflowLens

open WorkflowLens.Tree (Step)

/-! ## Locations with a role -/

/-- The location `jobs.<job>` of a job. -/
def IsJobPath (l : List Step) : Prop :=
  ∃ job, l = [.key "jobs", .key job]

/-- The location of a node that may list steps: a job, or `runs`. -/
def IsStepsOwnerPath (l : List Step) : Prop :=
  IsJobPath l ∨ l = [.key "runs"]

/-- The location `jobs.<job>.steps[i]` or `runs.steps[i]` of a step. -/
def IsStepPath (l : List Step) : Prop :=
  ∃ owner i, IsStepsOwnerPath owner ∧ l = owner ++ [.key "steps", .item i]

/-- The location of a node whose declarations count in its whole subtree: the root, a job or a
step. -/
def IsScopePath (l : List Step) : Prop :=
  l = [] ∨ IsJobPath l ∨ IsStepPath l

/-- No job is inside of another one. -/
theorem IsJobPath.eq_of_isPrefix {l k : List Step} (hl : IsJobPath l) (hk : IsJobPath k)
    (h : l <+: k) : l = k := by
  obtain ⟨job, rfl⟩ := hl
  obtain ⟨other, rfl⟩ := hk
  exact h.eq_of_length rfl

/-- No step is inside of another one. -/
theorem IsStepPath.eq_of_isPrefix {l k : List Step} (hl : IsStepPath l) (hk : IsStepPath k)
    (h : l <+: k) : l = k := by
  rcases hl with ⟨_, i, ⟨job, rfl⟩ | rfl, rfl⟩ <;> rcases hk with ⟨_, j, ⟨other, rfl⟩ | rfl, rfl⟩
  · exact h.eq_of_length rfl
  · simp [List.cons_prefix_cons] at h
  · simp [List.cons_prefix_cons] at h
  · exact h.eq_of_length rfl

namespace Tree.IsPreorder

variable {t : Tree} (h : t.IsPreorder) {n : Nat}
include h

/-! ## Roles by locations -/

theorem hasName_and_isTopLevel_iff (hn : n < t.size) {name : String} :
    (t.hasName name n && t.isTopLevel n) = true ↔ t.location n = [.key name] := by
  rw [Bool.and_eq_true, hasName_iff, isTopLevel, Option.any_eq_true,
    show [Step.key name] = [] ++ [Step.key name] from rfl, h.location_eq_append_iff hn,
    step_eq_key_iff]
  constructor
  · rintro ⟨hname, p, hp, hroot⟩
    exact ⟨p, hp, (h.location_eq_nil_iff (h.parent_lt_size hp)).mpr (isRoot_iff.mp hroot), hname⟩
  · rintro ⟨p, hp, hnil, hname⟩
    exact ⟨hname, p, hp, isRoot_iff.mpr ((h.location_eq_nil_iff (h.parent_lt_size hp)).mp hnil)⟩

theorem isJob_iff (hn : n < t.size) : t.isJob n = true ↔ IsJobPath (t.location n) := by
  rw [isJob, Bool.and_eq_true, Option.any_eq_true, Option.isSome_iff_exists]
  constructor
  · rintro ⟨⟨job, hname⟩, p, hp, hjobs⟩
    rw [h.hasName_and_isTopLevel_iff (h.parent_lt_size hp)] at hjobs
    exact ⟨job, by rw [h.location_of_parent hp, hjobs, step_eq_key_iff.mpr hname]; rfl⟩
  · rintro ⟨job, hl⟩
    obtain ⟨p, hp, hjobs, hstep⟩ := (h.location_eq_append_iff hn (l := [.key "jobs"])).mp hl
    exact ⟨⟨job, step_eq_key_iff.mp hstep⟩, p, hp,
      (h.hasName_and_isTopLevel_iff (h.parent_lt_size hp)).mpr hjobs⟩

theorem ownsSteps_iff (hn : n < t.size) :
    t.ownsSteps n = true ↔ IsStepsOwnerPath (t.location n) := by
  rw [ownsSteps, Bool.or_eq_true, h.isJob_iff hn, h.hasName_and_isTopLevel_iff hn, IsStepsOwnerPath]

theorem isStep_iff (hn : n < t.size) : t.isStep n = true ↔ IsStepPath (t.location n) := by
  rw [isStep, Bool.and_eq_true, Option.any_eq_true, Option.isNone_iff_eq_none]
  constructor
  · rintro ⟨hname, p, hp, hsteps⟩
    rw [Bool.and_eq_true, hasName_iff, Option.any_eq_true] at hsteps
    obtain ⟨hpname, q, hq, howner⟩ := hsteps
    refine ⟨t.location q, t.index n, (h.ownsSteps_iff (h.parent_lt_size hq)).mp howner, ?_⟩
    rw [h.location_of_parent hp, h.location_of_parent hq, step_eq_key_iff.mpr hpname,
      step_eq_item_iff.mpr ⟨hname, rfl⟩, List.append_assoc]
    rfl
  · rintro ⟨owner, i, howner, hl⟩
    rw [List.append_cons, h.location_eq_append_iff hn] at hl
    obtain ⟨p, hp, hsteps, hitem⟩ := hl
    rw [h.location_eq_append_iff (h.parent_lt_size hp)] at hsteps
    obtain ⟨q, hq, hlq, hpname⟩ := hsteps
    rw [← hlq, ← h.ownsSteps_iff (h.parent_lt_size hq)] at howner
    refine ⟨(step_eq_item_iff.mp hitem).1, p, hp, ?_⟩
    rw [Bool.and_eq_true, hasName_iff, Option.any_eq_true]
    exact ⟨step_eq_key_iff.mp hpname, q, hq, howner⟩

theorem name?_of_location (hn : n < t.size) {l : List Step} {name : String}
    (hl : t.location n = l ++ [.key name]) : t.name? n = some name := by
  obtain ⟨_, _, _, hstep⟩ := (h.location_eq_append_iff hn).mp hl
  exact step_eq_key_iff.mp hstep

theorem index_of_location (hn : n < t.size) {l : List Step} {i : Nat}
    (hl : t.location n = l ++ [.item i]) : t.index n = i := by
  obtain ⟨_, _, _, hstep⟩ := (h.location_eq_append_iff hn).mp hl
  exact (step_eq_item_iff.mp hstep).2

/-! ## The nearest ancestor with a role -/

variable {role : Nat → Bool} {IsPath : List Step → Prop}
  (hrole : ∀ {a}, a < t.size → (role a = true ↔ IsPath (t.location a))) (hn : n < t.size)
include hrole hn

/-- If a role is a matter of the location, then a node with the role that is found on the way up
has a prefix of the location. -/
theorem of_find?_ancestorsOrSelf {a : Nat} (ha : (t.ancestorsOrSelf n).find? role = some a) :
    a < t.size ∧ IsPath (t.location a) ∧ t.location a <+: t.location n := by
  have hmem := List.mem_of_find?_eq_some ha
  have hsize := h.lt_size_of_mem_ancestorsOrSelf hn hmem
  exact ⟨hsize, (hrole hsize).mp (List.find?_some ha),
    (h.isPrefix_location_iff hn).mpr ⟨a, hmem, rfl⟩⟩

/-- If no node with the role is inside of another one, then every prefix with the role is that of
the node that is found on the way up. -/
theorem exists_find?_ancestorsOrSelf
    (hpath : ∀ {l k}, IsPath l → IsPath k → l <+: k → l = k) {l : List Step} (hl : IsPath l)
    (hbegins : l <+: t.location n) :
    ∃ a, (t.ancestorsOrSelf n).find? role = some a ∧ a < t.size ∧ t.location a = l := by
  obtain ⟨b, hmem, rfl⟩ := (h.isPrefix_location_iff hn).mp hbegins
  have hbsize := h.lt_size_of_mem_ancestorsOrSelf hn hmem
  have hsome : ((t.ancestorsOrSelf n).find? role).isSome :=
    List.find?_isSome.mpr ⟨b, hmem, (hrole hbsize).mpr hl⟩
  obtain ⟨a, ha⟩ := Option.isSome_iff_exists.mp hsome
  obtain ⟨hasize, hapath, habegins⟩ := h.of_find?_ancestorsOrSelf hrole hn ha
  refine ⟨a, ha, hasize, ?_⟩
  rcases List.prefix_or_prefix_of_prefix habegins hbegins with hle | hle
  · exact hpath hapath hl hle
  · exact (hpath hl hapath hle).symm

end Tree.IsPreorder

/-! ## Scopes -/

namespace Scope

section ofNode

variable {t : Tree} (h : t.IsPreorder) {n : Nat} (hn : n < t.size)
include h hn

/-- A node belongs to the job whose location its own location begins with. -/
theorem job_ofNode_eq_some_iff {job : String} :
    (ofNode t n).job = some job ↔ [.key "jobs", .key job] <+: t.location n := by
  rw [ofNode, Option.bind_eq_some_iff]
  constructor
  · rintro ⟨a, ha, hname⟩
    obtain ⟨hasize, ⟨other, hl⟩, hbegins⟩ := h.of_find?_ancestorsOrSelf h.isJob_iff hn ha
    have hother := h.name?_of_location hasize (l := [.key "jobs"]) hl
    rw [hname, Option.some.injEq] at hother
    rw [hl, ← hother] at hbegins
    exact hbegins
  · intro hbegins
    obtain ⟨a, ha, hasize, hl⟩ := h.exists_find?_ancestorsOrSelf h.isJob_iff hn
      IsJobPath.eq_of_isPrefix ⟨job, rfl⟩ hbegins
    exact ⟨a, ha, h.name?_of_location hasize (l := [.key "jobs"]) hl⟩

/-- A node belongs to the step whose location its own location begins with. -/
theorem step_ofNode_eq_some_iff {i : Nat} :
    (ofNode t n).step = some i ↔
      ∃ owner, IsStepsOwnerPath owner ∧ owner ++ [.key "steps", .item i] <+: t.location n := by
  rw [ofNode, Option.map_eq_some_iff]
  constructor
  · rintro ⟨a, ha, rfl⟩
    obtain ⟨hasize, ⟨owner, i, howner, hl⟩, hbegins⟩ :=
      h.of_find?_ancestorsOrSelf h.isStep_iff hn ha
    rw [List.append_cons] at hl
    rw [h.index_of_location hasize hl]
    rw [hl, ← List.append_cons] at hbegins
    exact ⟨owner, howner, hbegins⟩
  · rintro ⟨owner, howner, hbegins⟩
    obtain ⟨a, ha, hasize, hl⟩ := h.exists_find?_ancestorsOrSelf h.isStep_iff hn
      IsStepPath.eq_of_isPrefix ⟨owner, i, howner, rfl⟩ hbegins
    rw [List.append_cons] at hl
    exact ⟨a, ha, h.index_of_location hasize hl⟩

/-- The nodes inside a step of a job are those with its scope. -/
theorem ofNode_eq_jobStep_iff {job : String} {i : Nat} :
    ofNode t n = ⟨some job, some i⟩ ↔
      [.key "jobs", .key job, .key "steps", .item i] <+: t.location n := by
  rw [Scope.mk.injEq, job_ofNode_eq_some_iff h hn, step_ofNode_eq_some_iff h hn]
  constructor
  · rintro ⟨hjob, owner, ⟨other, rfl⟩ | rfl, rest, hrest⟩
    · rw [← hrest] at hjob ⊢
      have hsame : job = other := by simpa [List.cons_prefix_cons] using hjob
      rw [hsame]
      exact List.prefix_append _ _
    · rw [← hrest] at hjob
      simp [List.cons_prefix_cons] at hjob
  · intro hbegins
    have hjob : [Step.key "jobs", .key job] <+: [.key "jobs", .key job, .key "steps", .item i] :=
      ⟨[.key "steps", .item i], rfl⟩
    exact ⟨hjob.trans hbegins, [.key "jobs", .key job], .inl ⟨job, rfl⟩, hbegins⟩

/-- The nodes inside a step of an action are those with its scope. -/
theorem ofNode_eq_runsStep_iff {i : Nat} :
    ofNode t n = ⟨none, some i⟩ ↔ [.key "runs", .key "steps", .item i] <+: t.location n := by
  rw [Scope.mk.injEq, Option.eq_none_iff_forall_ne_some, step_ofNode_eq_some_iff h hn]
  constructor
  · rintro ⟨hjob, owner, ⟨job, rfl⟩ | rfl, hstep⟩
    · have hbegins : [.key "jobs", .key job] <+: t.location n :=
        (List.prefix_append _ _).trans hstep
      exact absurd ((job_ofNode_eq_some_iff h hn).mpr hbegins) (hjob job)
    · exact hstep
  · rintro ⟨rest, hrest⟩
    refine ⟨fun job hjob => ?_, [.key "runs"], .inr rfl, rest, hrest⟩
    rw [job_ofNode_eq_some_iff h hn, ← hrest] at hjob
    simp [List.cons_prefix_cons] at hjob

end ofNode

variable {A B : Tree} (hA : A.IsPreorder) (hB : B.IsPreorder) {n owner : Nat} (hn : n < A.size)
  (howner : owner < B.size)

include hB howner in
/-- A step counts where the scope is its own. -/
theorem sees_of_isStep {s : Scope} (hjob : B.isJob owner = false) (hstep : B.isStep owner = true) :
    s.sees B owner = true ↔ s = ofNode B owner := by
  have hroot : ¬ Tree.isRoot owner = true := by
    intro hroot
    have hnil := (hB.location_eq_nil_iff howner).mpr (Tree.isRoot_iff.mp hroot)
    rw [hB.isStep_iff howner, hnil] at hstep
    obtain ⟨l, i, -, hl⟩ := hstep
    exact List.append_ne_nil_of_right_ne_nil _ (List.cons_ne_nil _ _) hl.symm
  have hofNode : ofNode B owner
      = ⟨((B.ancestors owner).find? B.isJob).bind B.name?, some (B.index owner)⟩ := by
    rw [ofNode, Tree.jobOf?, Tree.stepOf?, Tree.IsPreorder.ancestorsOrSelf_eq_cons,
      List.find?_cons_of_neg (by rw [hjob]; exact Bool.false_ne_true), List.find?_cons_of_pos hstep]
    rfl
  rw [sees, if_neg hroot, hjob, if_neg Bool.false_ne_true, if_pos hstep, hofNode, Bool.and_eq_true,
    beq_iff_eq, beq_iff_eq]
  cases s
  simp only [Scope.mk.injEq, eq_comm]

include hA hB hn howner in
/-- **What a node declares counts in its own subtree, if it is the root, a job or a step, and
nowhere otherwise.** -/
theorem sees_ofNode_iff :
    (ofNode A n).sees B owner = true ↔
      IsScopePath (B.location owner) ∧ B.location owner <+: A.location n := by
  by_cases hroot : owner = Tree.root
  · subst hroot
    rw [hB.location_root]
    exact ⟨fun _ => ⟨.inl rfl, List.nil_prefix⟩, fun _ => rfl⟩
  have hnotRoot : ¬ Tree.isRoot owner = true := fun h => hroot (Tree.isRoot_iff.mp h)
  cases hjob : B.isJob owner with
  | true =>
    obtain ⟨job, hl⟩ := (hB.isJob_iff howner).mp hjob
    have hname := hB.name?_of_location howner (l := [.key "jobs"]) hl
    rw [sees, if_neg hnotRoot, if_pos hjob, hname, beq_iff_eq, eq_comm,
      job_ofNode_eq_some_iff hA hn, hl]
    exact ⟨fun hbegins => ⟨.inr (.inl ⟨job, rfl⟩), hbegins⟩, And.right⟩
  | false =>
    cases hstep : B.isStep owner with
    | true =>
      have hpath := (hB.isStep_iff howner).mp hstep
      have hscopePath : IsScopePath (B.location owner) := .inr (.inr hpath)
      rw [sees_of_isStep hB howner hjob hstep, and_iff_right hscopePath]
      obtain ⟨_, i, ⟨job, rfl⟩ | rfl, hl⟩ := hpath
      · have hscope : ofNode B owner = ⟨some job, some i⟩ :=
          (ofNode_eq_jobStep_iff hB howner).mpr (by rw [hl]; exact List.prefix_refl _)
        rw [hscope, ofNode_eq_jobStep_iff hA hn, hl]
        rfl
      · have hscope : ofNode B owner = ⟨none, some i⟩ :=
          (ofNode_eq_runsStep_iff hB howner).mpr (by rw [hl]; exact List.prefix_refl _)
        rw [hscope, ofNode_eq_runsStep_iff hA hn, hl]
        rfl
    | false =>
      rw [sees, if_neg hnotRoot, hjob, hstep]
      refine ⟨fun hfalse => absurd hfalse Bool.false_ne_true, ?_⟩
      rintro ⟨hnil | hpath | hpath, -⟩
      · exact absurd ((hB.location_eq_nil_iff howner).mp hnil) hroot
      · rw [← hB.isJob_iff howner, hjob] at hpath
        exact absurd hpath Bool.false_ne_true
      · rw [← hB.isStep_iff howner, hstep] at hpath
        exact absurd hpath Bool.false_ne_true

end Scope

end WorkflowLens
