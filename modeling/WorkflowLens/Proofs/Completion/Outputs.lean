import WorkflowLens.Completion.Candidates
import WorkflowLens.Proofs.Index.Collect

/-!
# Where the outputs of a path come from

The third part of a path such as `jobs.build.outputs.` is an output of what the second part names.
Here is said where in a document its outputs stand, by the keys that lead to them from the root,
and without the functions that look them up.

* `jobs.build` and `needs.build` are the job under the keys `jobs` and `build`.  Its outputs are the
  keys under its key `outputs`.
* `steps.build` is the first of the caret's steps with the id `build`.  The caret's steps are those
  of its job, or in an action those under `runs`.  The outputs are what the catalog knows of the
  action that the step uses, and what the step's script writes.

A key may be written twice in a mapping.  The first one counts.

* `Tree.Leads`: keys lead from one node down to another.
* `Request.IsStepOf`: a node is the caret's step with an id.
* `Request.GivesOutput`: an output of what the first two words of a path name.
* `Request.mem_outputMembers_iff`: the candidates after the word `outputs` are these outputs.
-/

namespace WorkflowLens

namespace Tree

/-- A node is the first of the children of another one that have a certain key. -/
def IsFirstChild (t : Tree) (n : Nat) (key : String) (c : Nat) : Prop :=
  t.name? c = some key ∧ ∃ before after, t.children n = before ++ c :: after ∧
    ∀ b ∈ before, t.name? b ≠ some key

/-- Keys lead from a node down to another one. -/
inductive Leads (t : Tree) : Nat → List String → Nat → Prop where
  | here (n : Nat) : Leads t n [] n
  | down {n c m : Nat} {key : String} {keys : List String} (first : t.IsFirstChild n key c)
      (rest : Leads t c keys m) : Leads t n (key :: keys) m

/-- A text stands under a key of a node. -/
def Holds (t : Tree) (n : Nat) (key text : String) : Prop :=
  ∃ c, t.IsFirstChild n key c ∧ t.value? c = some text

variable {t : Tree}

theorem child?_eq_some_iff_isFirstChild {n c : Nat} {key : String} :
    t.child? n key = some c ↔ t.IsFirstChild n key c := by
  simp [child?, hasName, IsFirstChild, List.find?_eq_some_iff_append]

theorem leads_cons_iff {n m : Nat} {key : String} {keys : List String} :
    t.Leads n (key :: keys) m ↔ ∃ c, t.child? n key = some c ∧ t.Leads c keys m := by
  constructor
  · rintro ⟨⟩
    next c first rest => exact ⟨c, child?_eq_some_iff_isFirstChild.mpr first, rest⟩
  · rintro ⟨c, hc, hrest⟩
    exact .down (child?_eq_some_iff_isFirstChild.mp hc) hrest

theorem leads_nil_iff {n m : Nat} : t.Leads n [] m ↔ n = m := by
  constructor
  · rintro ⟨⟩
    rfl
  · rintro rfl
    exact .here n

theorem leads_singleton_iff {n m : Nat} {key : String} :
    t.Leads n [key] m ↔ t.child? n key = some m := by
  simp only [leads_cons_iff, leads_nil_iff, exists_eq_right]

/-- The last key leads to a child. -/
theorem leads_concat_iff {m : Nat} {key : String} (keys : List String) : ∀ {n : Nat},
    t.Leads n (keys ++ [key]) m ↔ ∃ c, t.Leads n keys c ∧ t.child? c key = some m := by
  induction keys with
  | nil =>
    intro n
    rw [List.nil_append, leads_cons_iff]
    simp only [leads_nil_iff, exists_eq_left', exists_eq_right]
  | cons first keys ih =>
    intro n
    simp only [List.cons_append, leads_cons_iff, ih]
    constructor
    · rintro ⟨d, hd, c, hc, hm⟩
      exact ⟨c, ⟨d, hd, hc⟩, hm⟩
    · rintro ⟨c, ⟨d, hd, hc⟩, hm⟩
      exact ⟨d, hd, c, hc, hm⟩

theorem childValue?_eq_some_iff_holds {n : Nat} {key text : String} :
    t.childValue? n key = some text ↔ t.Holds n key text := by
  simp only [childValue?, Option.bind_eq_some_iff, child?_eq_some_iff_isFirstChild]
  rfl

end Tree

/-- Three words name what has outputs. -/
theorem Context.hasOutputs_ofSegment_iff {first : String} :
    (Context.ofSegment first).hasOutputs = true ↔
      first = "jobs" ∨ first = "needs" ∨ first = "steps" := by
  constructor
  · intro h
    by_contra hno
    obtain ⟨hjobs, hneeds, hsteps⟩ : first ≠ "jobs" ∧ first ≠ "needs" ∧ first ≠ "steps" := by
      simpa using hno
    unfold Context.ofSegment at h
    simp only [hjobs, hneeds, hsteps, if_false] at h
    split_ifs at h <;> cases h
  · rintro (rfl | rfl | rfl) <;> rfl

open WorkflowLens.Tree (root)

/-! ## Outputs of jobs -/

namespace Index

variable {ix : Index}

theorem job?_eq_some_iff_leads {t : Tree} (htree : ix.tree = some t) {job : String} {n : Nat} :
    ix.job? job = some n ↔ t.Leads root ["jobs", job] n := by
  simp [job?, inTree?, htree, Option.bind_eq_some_iff, Tree.leads_cons_iff, Tree.leads_nil_iff]

theorem mem_names_jobOutputs_iff {t : Tree} (htree : ix.tree = some t) {job name : String} :
    name ∈ (ix.jobOutputs job).names ↔ ∃ n c, t.Leads root ["jobs", job, "outputs"] n ∧
      c ∈ t.children n ∧ t.name? c = some name := by
  have hleads : ∀ n, t.Leads root ["jobs", job, "outputs"] n ↔
      ((ix.job? job).bind fun j => t.child? j "outputs") = some n := fun n => by
    simp only [Option.bind_eq_some_iff, job?_eq_some_iff_leads htree]
    exact Tree.leads_concat_iff ["jobs", job]
  simp only [jobOutputs, dictionary, htree, Option.map_some, Option.getD_some, hleads]
  cases (ix.job? job).bind fun j => t.child? j "outputs" with
  | none => simp
  | some n => simp [Dictionary.names_ofListLast, Dictionary.mem_names_ofListFirst]

theorem stepValue?_eq {t : Tree} (htree : ix.tree = some t) (step : Nat) (key : String) :
    ix.stepValue? step key = t.childValue? step key := by
  rw [stepValue?, inTree?, htree, Option.bind_some]

end Index

/-! ## Outputs of steps -/

namespace Request

/-- The keys under which the steps of the caret stand: those of its job, or `runs` in an action. -/
inductive HasStepsUnder (r : Request) : List String → Prop where
  | runs (hkind : r.whole.kind = .action) : HasStepsUnder r ["runs"]
  | job {job : String} (hkind : r.whole.kind ≠ .action) (hjob : r.scope.job = some job) :
      HasStepsUnder r ["jobs", job]

/-- A node of the whole document is the first of the steps of the caret that have an id. -/
def IsStepOf (r : Request) (t : Tree) (id : String) (step : Nat) : Prop :=
  t.Holds step "id" id ∧ ∃ keys steps before after, r.HasStepsUnder keys ∧
    t.Leads root (keys ++ ["steps"]) steps ∧ t.children steps = before ++ step :: after ∧
    ∀ other ∈ before, ¬ t.Holds other "id" id

section IsStepOf

variable {r : Request} {t : Tree} (htree : r.whole.tree = some t)
include htree

theorem stepsOwner?_eq_some_iff {owner : Nat} :
    r.whole.stepsOwner? r.scope.job = some owner ↔
      ∃ keys, r.HasStepsUnder keys ∧ t.Leads root keys owner := by
  unfold Index.stepsOwner?
  split
  · next hkind =>
    rw [Index.inTree?, htree, Option.bind_some]
    constructor
    · exact fun howner => ⟨["runs"], .runs hkind, Tree.leads_singleton_iff.mpr howner⟩
    · rintro ⟨keys, hkeys, hleads⟩
      cases hkeys with
      | runs => exact Tree.leads_singleton_iff.mp hleads
      | job hno => exact absurd hkind hno
  · next job hjob hkind =>
    rw [Index.job?_eq_some_iff_leads htree]
    constructor
    · exact fun hleads => ⟨["jobs", job], .job hkind hjob, hleads⟩
    · rintro ⟨keys, hkeys, hleads⟩
      cases hkeys with
      | runs haction => exact absurd haction hkind
      | job _ hother =>
        rw [hjob, Option.some.injEq] at hother
        rw [hother]
        exact hleads
  · next hjob hkind =>
    refine iff_of_false (fun h => by cases h) ?_
    rintro ⟨keys, hkeys, -⟩
    cases hkeys with
    | runs haction => exact hkind haction
    | job _ hother =>
      rw [hjob] at hother
      cases hother

theorem step?_eq_some_iff_isStepOf {id : String} {step : Nat} :
    r.whole.step? r.scope.job id = some step ↔ r.IsStepOf t id step := by
  have hfind : ∀ steps, ((t.children steps).find? fun n => t.childValue? n "id" == some id)
      = some step ↔ t.Holds step "id" id ∧ ∃ before after,
        t.children steps = before ++ step :: after ∧ ∀ other ∈ before, ¬ t.Holds other "id" id := by
    simp [List.find?_eq_some_iff_append, Tree.childValue?_eq_some_iff_holds]
  rw [Index.step?, Index.inTree?, htree, Option.bind_some]
  simp only [Option.bind_eq_some_iff, stepsOwner?_eq_some_iff htree, hfind]
  constructor
  · rintro ⟨owner, ⟨keys, hkeys, hleads⟩, steps, hsteps, hid, before, after, hfirst⟩
    exact ⟨hid, keys, steps, before, after, hkeys,
      (Tree.leads_concat_iff keys).mpr ⟨owner, hleads, hsteps⟩, hfirst⟩
  · rintro ⟨hid, keys, steps, before, after, hkeys, hleads, hfirst⟩
    obtain ⟨owner, howner, hsteps⟩ := (Tree.leads_concat_iff keys).mp hleads
    exact ⟨owner, ⟨keys, hkeys, howner⟩, steps, hsteps, hid, before, after, hfirst⟩

end IsStepOf

/-! ## Outputs of a path -/

variable {σ : Type}

/-- A name is an output of what the first two words of a path name, for a catalog in a given
state. -/
inductive GivesOutput (r : Request) (catalog : Catalog (StateM σ)) (s : σ) :
    (first owner name : String) → Prop where
  /-- A key under the `outputs` of a job. -/
  | job {first owner name : String} {t : Tree} {n c : Nat}
      (hfirst : first = "jobs" ∨ first = "needs") (htree : r.whole.tree = some t)
      (hleads : t.Leads root ["jobs", owner, "outputs"] n) (hc : c ∈ t.children n)
      (hname : t.name? c = some name) : GivesOutput r catalog s first owner name
  /-- An output of the action that a step uses. -/
  | declared {owner name uses : String} {t : Tree} {step : Nat} (htree : r.whole.tree = some t)
      (hstep : r.IsStepOf t owner step) (huses : t.Holds step "uses" uses)
      (hname : name ∈ ((catalog.outputs uses).run s).1.names) :
      GivesOutput r catalog s "steps" owner name
  /-- An output that the script of a step writes. -/
  | written {owner name script : String} {t : Tree} {step : Nat} (htree : r.whole.tree = some t)
      (hstep : r.IsStepOf t owner step) (hrun : t.Holds step "run" script)
      (hname : name ∈ (scriptOutputs script.toList).names) :
      GivesOutput r catalog s "steps" owner name

variable (r : Request) (catalog : Catalog (StateM σ)) (s : σ)

theorem mem_names_stepOutputs_iff {ix : Index} {job : Option String} {owner name : String} :
    name ∈ ((ix.stepOutputs catalog job owner).run s).1.names ↔
      ∃ step, ix.step? job owner = some step ∧
        ((∃ uses, ix.stepValue? step "uses" = some uses ∧
          name ∈ ((catalog.outputs uses).run s).1.names) ∨
        ∃ script, ix.stepValue? step "run" = some script ∧
          name ∈ (scriptOutputs script.toList).names) := by
  rw [Index.stepOutputs]
  cases ix.step? job owner with
  | none =>
    change name ∈ Dictionary.empty.names ↔ _
    simp
  | some step =>
    simp only [Option.some.injEq, exists_eq_left']
    cases ix.stepValue? step "uses" with
    | none =>
      cases ix.stepValue? step "run" with
      | none =>
        change name ∈ Dictionary.empty.names ↔ _
        simp
      | some script =>
        change name ∈ (Dictionary.empty.append (scriptOutputs script.toList)).names ↔ _
        simp [Dictionary.mem_names_append]
    | some uses =>
      cases ix.stepValue? step "run" with
      | none =>
        change name ∈ ((catalog.outputs uses).run s).1.names ↔ _
        simp
      | some script =>
        change name ∈
          (((catalog.outputs uses).run s).1.append (scriptOutputs script.toList)).names ↔ _
        simp [Dictionary.mem_names_append]

theorem givesOutput_steps_iff {owner name : String} :
    r.GivesOutput catalog s "steps" owner name ↔
      name ∈ ((r.whole.stepOutputs catalog r.scope.job owner).run s).1.names := by
  rw [mem_names_stepOutputs_iff]
  constructor
  · intro h
    cases h with
    | job hfirst => simp at hfirst
    | @declared _ _ uses t step htree hstep huses hname =>
      refine ⟨step, (step?_eq_some_iff_isStepOf htree).mpr hstep, .inl ⟨uses, ?_, hname⟩⟩
      rw [Index.stepValue?_eq htree]
      exact Tree.childValue?_eq_some_iff_holds.mpr huses
    | @written _ _ script t step htree hstep hrun hname =>
      refine ⟨step, (step?_eq_some_iff_isStepOf htree).mpr hstep, .inr ⟨script, ?_, hname⟩⟩
      rw [Index.stepValue?_eq htree]
      exact Tree.childValue?_eq_some_iff_holds.mpr hrun
  · rintro ⟨step, hstep, hname⟩
    obtain ⟨t, htree, -⟩ := Option.bind_eq_some_iff.mp hstep
    rw [step?_eq_some_iff_isStepOf htree] at hstep
    simp only [Index.stepValue?_eq htree, Tree.childValue?_eq_some_iff_holds] at hname
    rcases hname with ⟨uses, huses, hname⟩ | ⟨script, hrun, hname⟩
    · exact .declared htree hstep huses hname
    · exact .written htree hstep hrun hname

theorem givesOutput_job_iff {first owner name : String} (h : first = "jobs" ∨ first = "needs") :
    r.GivesOutput catalog s first owner name ↔ name ∈ (r.whole.jobOutputs owner).names := by
  constructor
  · intro hgives
    cases hgives with
    | job _ htree hleads hc hname =>
      exact (Index.mem_names_jobOutputs_iff htree).mpr ⟨_, _, hleads, hc, hname⟩
    | declared => simp at h
    | written => simp at h
  · intro hname
    cases htree : r.whole.tree with
    | none =>
      rw [Index.jobOutputs, Index.dictionary, htree] at hname
      cases hname
    | some t =>
      obtain ⟨n, c, hleads, hc, hname⟩ := (Index.mem_names_jobOutputs_iff htree).mp hname
      exact .job h htree hleads hc hname

theorem GivesOutput.hasOutputs {first owner name : String}
    (h : r.GivesOutput catalog s first owner name) :
    (Context.ofSegment first).hasOutputs = true := by
  cases h with
  | job hfirst => rcases hfirst with rfl | rfl <;> rfl
  | declared => rfl
  | written => rfl

/-- **After the word `outputs` the outputs are offered.** -/
theorem mem_outputMembers_iff {first owner name : String} :
    name ∈ ((r.outputMembers catalog (Context.ofSegment first) owner).run s).1.map Item.label ↔
      r.GivesOutput catalog s first owner name := by
  by_cases houtputs : (Context.ofSegment first).hasOutputs = true
  · have hlabels : ∀ d : Dictionary, (Item.ofDictionary .output d).map Item.label = d.names :=
      fun d => Item.map_label_ofPairs _ _
    rcases Context.hasOutputs_ofSegment_iff.mp houtputs with rfl | rfl | rfl
    · rw [givesOutput_job_iff r catalog s (.inl rfl), ← hlabels]
      rfl
    · rw [givesOutput_job_iff r catalog s (.inr rfl), ← hlabels]
      rfl
    · rw [givesOutput_steps_iff, ← hlabels]
      rfl
  · refine iff_of_false (fun hname => ?_) fun h => houtputs (h.hasOutputs r catalog s)
    cases hcontext : Context.ofSegment first with
    | jobs | needs | steps => simp [hcontext, Context.hasOutputs] at houtputs
    | _ =>
      rw [hcontext] at hname
      cases hname

end Request

end WorkflowLens
