import WorkflowLens.Completion.Suggestions
import WorkflowLens.Proofs.Action.Outcomes

/-!
# Requests have no faults of their own

Completing asks a catalog about actions, and the catalog may change its state or stop with a fault.
But everything else in a request is a look-up that has an answer in any case.  So if the catalog
always answers as long as its state is good, and its state stays good, then every completion and
every path at a caret has an answer.  There is one lemma for each function that hands the catalog
on.

A session is such a catalog.  Its state is good if no time can come behind the last one and every
definition can be kept, and asking does not touch the time, the lifetimes and the sources.

* `Catalog.Answers`: a catalog that could stop, but does not while its state is good.
* `Request.succeeds_resolveAtCaret`, `Request.succeeds_suggestions`: the answers of a request.
* `Session.HasRoom`, `Session.answers_catalog`: the sessions that answer.
-/

namespace WorkflowLens

/-- A computation that could stop, but in a good state has a result and leaves a good state. -/
def Succeeds {ε σ α : Type} (good : σ → Prop) (x : ExceptT ε (StateM σ) α) : Prop :=
  ∀ s, good s → ∃ a t, x.run.run s = (.ok a, t) ∧ good t

section Succeeds

variable {ε σ α β : Type} {good : σ → Prop}

theorem succeeds_pure (a : α) : Succeeds good (pure a : ExceptT ε (StateM σ) α) :=
  fun s hs => ⟨a, s, rfl, hs⟩

theorem Succeeds.bind {x : ExceptT ε (StateM σ) α} {f : α → ExceptT ε (StateM σ) β}
    (hx : Succeeds good x) (hf : ∀ a, Succeeds good (f a)) : Succeeds good (x >>= f) := by
  intro s hs
  obtain ⟨a, t, hrun, ht⟩ := hx s hs
  obtain ⟨b, u, hrest, hu⟩ := hf a t ht
  refine ⟨b, u, ?_, hu⟩
  rw [ExceptT.run_bind, StateT.run_bind, hrun]
  exact hrest

end Succeeds

/-- A catalog that could stop, but in a good state has an answer for every action. -/
structure Catalog.Answers {ε σ : Type} (good : σ → Prop)
    (catalog : Catalog (ExceptT ε (StateM σ))) : Prop where
  inputs : ∀ uses, Succeeds good (catalog.inputs uses)
  outputs : ∀ uses, Succeeds good (catalog.outputs uses)

section Answers

variable {ε σ : Type} {good : σ → Prop} {catalog : Catalog (ExceptT ε (StateM σ))}
  (h : catalog.Answers good)
include h

namespace Index

theorem succeeds_stepOutputs (ix : Index) (job : Option String) (id : String) :
    Succeeds good (ix.stepOutputs catalog job id) := by
  rw [stepOutputs]
  split
  · exact succeeds_pure _
  · dsimp only
    split
    · exact (h.outputs _).bind fun declared => succeeds_pure _
    · exact (succeeds_pure _).bind fun declared => succeeds_pure _

theorem succeeds_actionInputsAt? (ix : Index) (n : Nat) :
    Succeeds good (ix.actionInputsAt? catalog n) := by
  rw [actionInputsAt?]
  split
  · exact succeeds_pure _
  · split
    · exact succeeds_pure _
    · exact (h.inputs _).bind fun inputs => succeeds_pure _

end Index

namespace Request

variable (r : Request)

/-! ## Paths -/

theorem succeeds_outputMembers (context : Context) (owner : String) :
    Succeeds good (r.outputMembers catalog context owner) := by
  cases context with
  | steps =>
    exact (r.whole.succeeds_stepOutputs h r.scope.job owner).bind fun outputs => succeeds_pure _
  | _ => exact succeeds_pure _

theorem succeeds_candidates (segments : List String) (depth : Nat) :
    Succeeds good (r.candidates catalog segments depth) := by
  match depth with
  | 0 => exact succeeds_pure _
  | 1 => exact succeeds_pure _
  | 2 =>
    rw [candidates]
    split
    · exact r.succeeds_outputMembers h _ _
    · exact succeeds_pure _
  | _ + 3 => exact succeeds_pure _

omit h in
/-- Following words fails only where the candidates of a depth fail. -/
theorem succeeds_follow {candidatesAt : Nat → ExceptT ε (StateM σ) (List Item)}
    (hcandidates : ∀ depth, Succeeds good (candidatesAt depth)) (words : List String) :
    ∀ depth items, Succeeds good (follow candidatesAt depth items words) := by
  induction words with
  | nil => exact fun depth items => succeeds_pure _
  | cons word words ih =>
    intro depth items
    rw [follow]
    split
    · exact (hcandidates (depth + 1)).bind fun next => ih (depth + 1) next
    · exact succeeds_pure _

theorem succeeds_resolve (path : Expression.Path) : Succeeds good (r.resolve catalog path) := by
  rw [resolve]
  exact (r.succeeds_candidates h _ 0).bind fun items =>
    (succeeds_follow (r.succeeds_candidates h _) _ 0 items).bind fun outcome => succeeds_pure _

/-- **The path at the caret has an answer if the catalog has.** -/
theorem succeeds_resolveAtCaret : Succeeds good (r.resolveAtCaret catalog) := by
  rw [resolveAtCaret]
  split
  · exact r.succeeds_resolve h _
  · exact succeeds_pure _

/-! ## Suggestions -/

theorem succeeds_inputsAtCaret : Succeeds good (r.inputsAtCaret catalog) := by
  rw [inputsAtCaret]
  split
  · exact succeeds_pure _
  · have hbefore := r.upToCaret.succeeds_actionInputsAt? h
    dsimp only
    split
    · refine (r.whole.succeeds_actionInputsAt? h _).bind fun found => ?_
      cases found with
      | some inputs => exact succeeds_pure _
      | none => exact (hbefore _).bind fun inputs => succeeds_pure _
    · exact (hbefore _).bind fun inputs => succeeds_pure _

theorem succeeds_structuralItems : Succeeds good (r.structuralItems catalog) := by
  rw [structuralItems]
  split
  · exact succeeds_pure _
  · exact (r.succeeds_inputsAtCaret h).bind fun inputs => succeeds_pure _

/-- **The items at the caret have an answer if the catalog has.** -/
theorem succeeds_suggestions : Succeeds good (r.suggestions catalog) := by
  rw [suggestions]
  split
  · exact (r.succeeds_resolve h _).bind fun outcome => succeeds_pure _
  · exact (r.succeeds_structuralItems h).bind fun items => succeeds_pure _

end Request

end Answers

/-! ## Sessions -/

namespace Session

/-- No time that a session may come to say is behind the last one, and every definition that its
sources have can be kept. -/
structure HasRoom (s : Session) : Prop where
  success_le : s.now + s.lifetimes.success ≤ Time.latest
  failure_le : s.now + s.lifetimes.failure ≤ Time.latest
  keeps : ∀ uses, s.sources.Keeps uses

theorem HasRoom.fits {s : Session} (h : s.HasRoom) (uses : String) :
    Action.Fits s.sources s.lifetimes s.now uses where
  success_le := h.success_le
  found_ok := by
    obtain ⟨d, expiresAt, hrules⟩ := (h.keeps uses).exists_tells s.lifetimes s.now
    exact hrules.eq.1
  lifetime_le := by
    rw [Action.lifetime]
    split
    · split
      · exact h.failure_le
      · exact h.success_le
    · exact h.success_le

/-- With room there is an action for every text, and there is still room afterwards. -/
theorem succeeds_resolve (uses : String) : Succeeds HasRoom (resolve uses) := by
  intro s hroom
  by_cases hknows : s.Knows uses
  · obtain ⟨a, ha⟩ := hknows
    exact ⟨a, s, run_resolve_of_fresh (Cache.fresh?_eq_some_iff.mpr ha), hroom⟩
  · obtain ⟨a, ha⟩ : ∃ a, s.tells uses = .ok a := ⟨_, Action.told_of_fits (hroom.fits uses)⟩
    refine ⟨a, s.afterAsking uses, ?_, hroom.success_le, hroom.failure_le, hroom.keeps⟩
    rw [run_resolve_of_not_knows hknows, ha]

/-- **A session answers as long as it has room.** -/
theorem answers_catalog : Catalog.Answers HasRoom catalog where
  inputs uses := (succeeds_resolve uses).bind fun a => succeeds_pure a.inputs
  outputs uses := (succeeds_resolve uses).bind fun a => succeeds_pure a.outputs

end Session

end WorkflowLens
