import Mathlib.Data.List.Nodup
import WorkflowLens.Proofs.Action.Calls

/-!
# The order of asking does not matter

Two texts may name one file, as `./a` and `./a ` do, and still the cache keeps them apart.  So
asking for one of them says nothing about the other one: whoever is asked second gets the answer it
would have had alone, and in the end the cache is the same whichever of them came first.

The reason is that asking does two things to the cache only.  The answer is kept under the text that
was asked for, and everything else stays.  At one time an answer that is kept is also the answer to
the next question, be it fresh or not: what is out of date at once is asked of the sources again,
and they tell the same.

A row of texts is asked one by one.  What holds of one question holds of the row by induction: every
text gets the answer it would have had in the beginning, and the cache depends only on which texts
are in the row.

* `Session.get?_afterAnswer`, `Session.told_afterAnswer`: what a question does to the cache, and
  that it changes no answer.
* `Session.run_map_resolve`: the answers to a row of texts, and the cache after it.
* `Session.resolve_comm`: two questions can be exchanged.
-/

namespace WorkflowLens

/-! ## Caches with the same actions -/

namespace Cache

theorem get?_eq_some_iff {c : Cache} {uses : String} {a : Action} :
    c.get? uses = some a ↔ a ∈ c.actions ∧ a.uses = uses := by
  constructor
  · intro h
    exact ⟨List.mem_of_find?_eq_some h, uses_of_get? h⟩
  · rintro ⟨hmem, rfl⟩
    have hsome : (c.get? a.uses).isSome = true :=
      List.find?_isSome.mpr ⟨a, hmem, beq_self_eq_true a.uses⟩
    obtain ⟨b, hb⟩ := Option.isSome_iff_exists.mp hsome
    have hsame := List.inj_on_of_nodup_map c.nodup_uses (List.mem_of_find?_eq_some hb) hmem
      (uses_of_get? hb)
    rw [hb, hsame]

/-- Caches that give the same action for every text have the same actions. -/
theorem perm_of_get?_eq {c d : Cache} (h : ∀ uses, c.get? uses = d.get? uses) :
    c.actions.Perm d.actions := by
  refine (List.perm_ext_iff_of_nodup (List.Nodup.of_map _ c.nodup_uses)
    (List.Nodup.of_map _ d.nodup_uses)).mpr fun a => ?_
  have ha := h a.uses
  constructor
  · intro hmem
    rw [get?_eq_some_iff.mpr ⟨hmem, rfl⟩, eq_comm, get?_eq_some_iff] at ha
    exact ha.1
  · intro hmem
    rw [get?_eq_some_iff.mpr ⟨hmem, rfl⟩, get?_eq_some_iff] at ha
    exact ha.1

end Cache

namespace Session

/-! ## One question -/

/-- The answer about a text. -/
def told (s : Session) (uses : String) : Except Fault Action :=
  ((resolve uses).run.run s).1

/-- The session after it has been asked about a text. -/
def afterAnswer (s : Session) (uses : String) : Session := ((resolve uses).run.run s).2

/-- The calls that it takes to be asked about a text. -/
def callsFor (s : Session) (uses : String) : List Call :=
  if (s.cache.fresh? uses s.now).isSome then []
  else Action.callsFor s.sources s.lifetimes s.now uses

variable (s : Session) (uses other : String)

/-- A question is answered from the cache, or else by the sources. -/
theorem told_eq :
    s.told uses = match s.cache.fresh? uses s.now with
      | some a => .ok a
      | none => s.tells uses := by
  rw [told]
  cases h : s.cache.fresh? uses s.now with
  | some a => rw [run_resolve_of_fresh h]
  | none => rw [run_resolve_of_not_fresh h]

/-- A question changes the cache and the calls only. -/
theorem afterAnswer_eq :
    s.afterAnswer uses = { s with
      cache := (s.afterAnswer uses).cache
      calls := s.calls ++ s.callsFor uses } := by
  rw [afterAnswer, callsFor]
  cases h : s.cache.fresh? uses s.now with
  | some a =>
    rw [run_resolve_of_fresh h, Option.isSome_some, if_pos rfl, List.append_nil]
  | none =>
    rw [run_resolve_of_not_fresh h]
    rfl

/-- An answer is kept under the text, and the actions of other texts stay. -/
theorem get?_afterAnswer :
    (s.afterAnswer uses).cache.get? other
      = if other = uses then (s.told uses).toOption.or (s.cache.get? other)
        else s.cache.get? other := by
  rw [told_eq, afterAnswer]
  cases h : s.cache.fresh? uses s.now with
  | some a =>
    rw [run_resolve_of_fresh h]
    split
    · next hsame =>
      rw [hsame, (Cache.fresh?_eq_some_iff.mp h).1]
      rfl
    · rfl
  | none =>
    rw [run_resolve_of_not_fresh h]
    exact get?_afterAsking s uses other

/-- A question changes what is fresh for its own text only. -/
theorem fresh?_afterAnswer (hne : other ≠ uses) :
    (s.afterAnswer uses).cache.fresh? other s.now = s.cache.fresh? other s.now := by
  rw [Cache.fresh?, get?_afterAnswer, if_neg hne, Cache.fresh?]

/-- A question changes nothing that the sources tell. -/
theorem tells_afterAnswer : (s.afterAnswer uses).tells other = s.tells other := by
  rw [afterAnswer_eq]
  rfl

/-- A question changes no answer, not even its own. -/
theorem told_afterAnswer : (s.afterAnswer uses).told other = s.told other := by
  have hnow : (s.afterAnswer uses).now = s.now := by rw [afterAnswer_eq]
  by_cases hsame : other = uses
  · subst hsame
    rw [told_eq, tells_afterAnswer, hnow, Cache.fresh?, get?_afterAnswer, if_pos rfl, told_eq]
    cases hfresh : s.cache.fresh? other s.now with
    | some a =>
      have hgood : (!a.isExpired s.now) = true := (Option.filter_eq_some_iff.mp hfresh).2
      rw [Except.toOption, Option.some_or, Option.filter_some, if_pos hgood]
    | none =>
      cases htells : s.tells other with
      | ok a =>
        -- what the sources told is told again, be it fresh or not
        rw [Except.toOption, Option.some_or, Option.filter_some]
        split
        · next hfilter =>
          split at hfilter <;> cases hfilter
          rfl
        · rfl
      | error fault =>
        rw [Except.toOption, Option.none_or, ← Cache.fresh?, hfresh]
  · rw [told_eq, tells_afterAnswer, hnow, fresh?_afterAnswer s uses other hsame, told_eq]

/-- A question changes no calls that another text takes. -/
theorem callsFor_afterAnswer (hne : other ≠ uses) :
    (s.afterAnswer uses).callsFor other = s.callsFor other := by
  have hfresh := fresh?_afterAnswer s uses other hne
  rw [callsFor, callsFor, afterAnswer_eq, hfresh]

/-! ## A row of questions -/

/-- Every text of a row gets the answer that it would have had in the beginning, and the cache
depends only on which texts are in the row. -/
theorem run_map_resolve (row : List String) : ∀ s : Session,
    ((run (row.map .resolve)).run s).1 = row.map (fun uses => (s.told uses).map .action) ∧
      ∀ uses, (s.after (row.map .resolve)).cache.get? uses
        = if uses ∈ row then (s.told uses).toOption.or (s.cache.get? uses)
          else s.cache.get? uses := by
  induction row with
  | nil => exact fun s => ⟨rfl, fun uses => (if_neg List.not_mem_nil).symm⟩
  | cons first rest ih =>
    intro s
    obtain ⟨hanswers, hcache⟩ := ih (s.afterAnswer first)
    have hperform : (perform (.resolve first)).run.run s
        = ((s.told first).map .action, s.afterAnswer first) := run_resolve_bind_pure _ s
    have hrun : (run ((first :: rest).map .resolve)).run s
        = ((s.told first).map .action :: ((run (rest.map .resolve)).run (s.afterAnswer first)).1,
          (s.afterAnswer first).after (rest.map .resolve)) := by
      rw [List.map_cons, run, StateT.run_bind]
      refine (congrArg (· >>= _) hperform).trans rfl
    have htold : (s.afterAnswer first).told = s.told := funext (told_afterAnswer s first)
    rw [after, hrun, hanswers, htold]
    refine ⟨rfl, fun uses => ?_⟩
    rw [hcache, htold, get?_afterAnswer]
    by_cases hsame : uses = first
    · subst hsame
      rw [if_pos rfl, if_pos (List.mem_cons_self ..), ← Option.or_assoc, Option.or_self, ite_self]
    · simp only [List.mem_cons, hsame, false_or, if_false]

/-- Rows of the same texts leave the same actions in the cache, in whatever order and however often
the texts stand in them. -/
theorem get?_after_map_resolve_congr {row row' : List String}
    (h : ∀ uses, uses ∈ row ↔ uses ∈ row') :
    (s.after (row.map .resolve)).cache.get? = (s.after (row'.map .resolve)).cache.get? := by
  funext uses
  rw [(run_map_resolve row s).2, (run_map_resolve row' s).2]
  simp only [h]

/-- Two questions change the cache and the calls only. -/
theorem after_resolve_resolve (first second : String) :
    let after := s.after [.resolve first, .resolve second]
    after = { s with
      cache := after.cache
      calls := s.calls ++ s.callsFor first ++ (s.afterAnswer first).callsFor second } := by
  intro after
  have hafter : after = (s.afterAnswer first).afterAnswer second := by
    show s.after _ = _
    rw [after_cons, after_cons, next_of_asked rfl, next_of_asked rfl]
    rfl
  rw [hafter, afterAnswer_eq (s.afterAnswer first), afterAnswer_eq s]

/-- **Two questions can be exchanged.**  Each of two texts gets the answer that it would have had
alone, or the lack of one, whichever of them is asked about first.  In the end the caches have the
same actions, the same calls have been made, though in another order, and nothing else differs. -/
theorem resolve_comm (s : Session) (u v : String) :
    let uv := (run [.resolve u, .resolve v]).run s
    let vu := (run [.resolve v, .resolve u]).run s
    uv.1 = [(s.told u).map .action, (s.told v).map .action] ∧
      vu.1 = [(s.told v).map .action, (s.told u).map .action] ∧
      (∀ uses, uv.2.cache.get? uses = vu.2.cache.get? uses) ∧
      uv.2.cache.actions.Perm vu.2.cache.actions ∧
      uv.2.calls.Perm vu.2.calls ∧
      vu.2 = { uv.2 with cache := vu.2.cache, calls := vu.2.calls } := by
  intro uv vu
  have hrow : ∀ uses, uses ∈ [u, v] ↔ uses ∈ [v, u] := by simp [or_comm]
  have hcache : uv.2.cache.get? = vu.2.cache.get? := get?_after_map_resolve_congr s hrow
  have huv : uv.2 = _ := after_resolve_resolve s u v
  have hvu : vu.2 = _ := after_resolve_resolve s v u
  have hcalls : uv.2.calls.Perm vu.2.calls := by
    rw [huv, hvu]
    by_cases hsame : u = v
    · subst hsame
      exact List.Perm.refl _
    · rw [callsFor_afterAnswer s u v (Ne.symm hsame), callsFor_afterAnswer s v u hsame,
        List.append_assoc, List.append_assoc]
      exact List.perm_append_comm.append_left s.calls
  refine ⟨(run_map_resolve [u, v] s).1, (run_map_resolve [v, u] s).1, congrFun hcache,
    Cache.perm_of_get?_eq (congrFun hcache), hcalls, ?_⟩
  rw [hvu, huv]

end Session

end WorkflowLens
