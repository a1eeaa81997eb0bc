import Mathlib.Data.List.Basic
import WorkflowLens.Action.Session
import WorkflowLens.Proofs.Action.Asking

/-!
# When a session calls its sources

A session asks its sources about a text only if its cache has no action for the text that is still
good.  What the sources tell goes into the cache and is good for the lifetime of a success or of a
failure, so the next call for the text has to wait that long by the clock, however the clock and
the sources change meanwhile, unless somebody else takes the action out of the cache.

The reason is one fact about the cache that events keep: an action for the text is there, and it
is good up to a certain time.  Asking again before that time changes nothing, and asking again
later puts an action into the cache that is good for longer.

This is so as long as there is no fault.  If the lifetime of a success is too long, there is no call
although there should be one.  Behind any other fault the call is made, but not remembered.

* `Session.next_of_knows`, `Session.next_of_not_knows`, `Session.next_of_not_asked`: all that an
  event can do.
* `Session.KnownUntil`, `Session.KnownUntil.after`: the fact that events keep.
* `Session.calls_spec`: which calls are made, and how far they are apart.
-/

namespace WorkflowLens

/-- An action is found fresh if it is in the cache and not out of date. -/
theorem Cache.fresh?_eq_some_iff {c : Cache} {uses : String} {now : Nat} {a : Action} :
    c.fresh? uses now = some a ↔ c.get? uses = some a ∧ now < a.expiresAt := by
  simp [fresh?, Option.filter_eq_some_iff, Action.isExpired]

/-! ## Events -/

namespace Event

/-- The text whose action an event asks for. -/
def asked? : Event → Option String
  | .resolve uses | .inputs uses | .outputs uses => some uses
  | _ => none

/-- Whether an event may replace the action of a text in the cache, or take it out, without asking
the sources. -/
def MayForget (uses : String) : Event → Prop
  | .insert other _ => other = uses
  | .store a => a.uses = uses
  | .evict _ | .clear => True
  | _ => False

end Event

namespace Session

/-- The session after an event. -/
def next (s : Session) (event : Event) : Session := ((perform event).run.run s).2

/-- The session after a row of events. -/
def after (s : Session) (events : List Event) : Session := ((run events).run s).2

theorem after_cons (s : Session) (event : Event) (events : List Event) :
    s.after (event :: events) = (s.next event).after events := rfl

/-- The calls that an event takes. -/
def callsOf (s : Session) (event : Event) : List Call :=
  (s.next event).calls.drop s.calls.length

/-- Whether the cache has an action for a text that is not out of date. -/
def Knows (s : Session) (uses : String) : Prop :=
  ∃ a, s.cache.get? uses = some a ∧ s.now < a.expiresAt

/-! ### Asking -/

/-- What the sources of a session tell of a text. -/
def tells (s : Session) (uses : String) : Except Fault Action :=
  Action.told s.sources s.lifetimes s.now uses

/-- The session after its sources have been asked about a text. -/
def afterAsking (s : Session) (uses : String) : Session :=
  { s with
    cache := s.cache.insertTold (s.tells uses)
    calls := s.calls ++ Action.callsFor s.sources s.lifetimes s.now uses }

section

variable {s : Session} {event : Event} {uses : String}

theorem run_resolve_of_fresh {a : Action} (h : s.cache.fresh? uses s.now = some a) :
    (resolve uses).run.run s = (.ok a, s) := by
  have hcache : (s.cache.resolve s.sources s.lifetimes s.now uses).run s.calls = _ :=
    Cache.run_resolve_of_fresh h s.calls
  show resolve uses s = _
  rw [resolve, hcache]

theorem run_resolve_of_not_fresh (h : s.cache.fresh? uses s.now = none) :
    (resolve uses).run.run s = (s.tells uses, s.afterAsking uses) := by
  have hcache : (s.cache.resolve s.sources s.lifetimes s.now uses).run s.calls = _ :=
    Cache.run_resolve_of_not_fresh h s.calls
  show resolve uses s = _
  rw [resolve, hcache, afterAsking, tells]
  cases Action.told s.sources s.lifetimes s.now uses <;> rfl

/-- What is read off an action is read off the answer. -/
theorem run_resolve_bind_pure (reply : Action → Reply) (s : Session) :
    (resolve uses >>= fun a => pure (reply a)).run.run s
      = ((((resolve uses).run.run s).1).map reply, ((resolve uses).run.run s).2) := by
  rw [ExceptT.run_bind, StateT.run_bind]
  rcases (resolve uses).run.run s with ⟨_ | a, t⟩ <;> rfl

/-- An event that asks for an action does what asking for the action does, and what it answers is
read off the action. -/
theorem exists_run_perform_eq (hasked : event.asked? = some uses) : ∃ reply : Action → Reply,
    ∀ s : Session, (perform event).run.run s
      = ((((resolve uses).run.run s).1).map reply, ((resolve uses).run.run s).2) := by
  cases event <;> cases hasked
  · exact ⟨.action, run_resolve_bind_pure _⟩
  · refine ⟨fun a => .parameters a.inputs, fun s => ?_⟩
    rw [← run_resolve_bind_pure, perform, catalog, bind_assoc]
    simp only [pure_bind]
  · refine ⟨fun a => .parameters a.outputs, fun s => ?_⟩
    rw [← run_resolve_bind_pure, perform, catalog, bind_assoc]
    simp only [pure_bind]

theorem next_of_asked (hasked : event.asked? = some uses) :
    s.next event = ((resolve uses).run.run s).2 := by
  obtain ⟨reply, hrun⟩ := exists_run_perform_eq hasked
  rw [next, hrun]

/-- Asking for an action that is known changes nothing, whatever the sources would tell. -/
theorem next_of_knows (hasked : event.asked? = some uses) (h : s.Knows uses) :
    s.next event = s := by
  obtain ⟨a, ha⟩ := h
  rw [next_of_asked hasked, run_resolve_of_fresh (Cache.fresh?_eq_some_iff.mpr ha)]

theorem run_resolve_of_not_knows (h : ¬ s.Knows uses) :
    (resolve uses).run.run s = (s.tells uses, s.afterAsking uses) := by
  refine run_resolve_of_not_fresh ?_
  cases hfound : s.cache.fresh? uses s.now with
  | none => rfl
  | some a => exact absurd ⟨a, Cache.fresh?_eq_some_iff.mp hfound⟩ h

/-- Asking for an action that is not known asks the sources. -/
theorem next_of_not_knows (hasked : event.asked? = some uses) (h : ¬ s.Knows uses) :
    s.next event = s.afterAsking uses := by
  rw [next_of_asked hasked, run_resolve_of_not_knows h]

/-- Waiting moves the clock on, if there is such a time. -/
theorem next_advance (s : Session) (seconds : Nat) :
    s.next (.advance seconds)
      = if s.now + seconds ≤ Time.latest then { s with now := s.now + seconds } else s := by
  show (((liftM (Time.after s.now seconds) : ExceptT Fault (StateM Session) Nat)
    >>= fun now => change fun s => { s with now }).run.run s).2 = _
  split
  · next hle =>
    rw [Time.after_of_le hle]
    rfl
  · next hlt =>
    rw [Time.after_of_lt (Nat.lt_of_not_le hlt)]
    rfl

/-- An event that asks for no action makes no calls, and what it may not forget stays. -/
theorem next_of_not_asked (hasked : event.asked? = none) :
    (s.next event).calls = s.calls ∧
      ∀ uses, ¬ event.MayForget uses → (s.next event).cache.get? uses = s.cache.get? uses := by
  cases event with
  | resolve _ => cases hasked
  | inputs _ => cases hasked
  | outputs _ => cases hasked
  | advance seconds =>
    rw [next_advance]
    split <;> exact ⟨rfl, fun _ _ => rfl⟩
  | setClock _ => exact ⟨rfl, fun _ _ => rfl⟩
  | setRemote _ _ => exact ⟨rfl, fun _ _ => rfl⟩
  | setFile _ _ => exact ⟨rfl, fun _ _ => rfl⟩
  | setAccount _ => exact ⟨rfl, fun _ _ => rfl⟩
  | insert other time =>
    refine ⟨rfl, fun uses hkeep => ?_⟩
    exact (Cache.get?_insert ..).trans (if_neg hkeep)
  | store a =>
    refine ⟨rfl, fun uses hkeep => ?_⟩
    exact (Cache.get?_insert ..).trans (if_neg hkeep)
  | evict _ => exact ⟨rfl, fun _ hkeep => absurd trivial hkeep⟩
  | clear => exact ⟨rfl, fun _ hkeep => absurd trivial hkeep⟩

end

/-! ## What is known stays known -/

/-- The cache has an action for a text that is good up to a time at least. -/
def KnownUntil (s : Session) (uses : String) (time : Nat) : Prop :=
  ∃ a, s.cache.get? uses = some a ∧ time ≤ a.expiresAt

/-- What is in the cache after asking. -/
theorem get?_afterAsking (s : Session) (uses other : String) :
    (s.afterAsking uses).cache.get? other
      = if other = uses then (s.tells uses).toOption.or (s.cache.get? other)
        else s.cache.get? other :=
  Cache.get?_insertTold _ (fun _ => Action.uses_of_told) other

theorem knownUntil_afterAsking {s : Session} {uses : String}
    (h : Action.Fits s.sources s.lifetimes s.now uses) :
    (s.afterAsking uses).KnownUntil uses
      (s.now + Action.lifetime s.sources s.lifetimes uses) := by
  refine ⟨Action.declaring uses (Action.definitionOf s.sources uses) _, ?_, Nat.le_refl _⟩
  rw [get?_afterAsking, if_pos rfl, tells, Action.told_of_fits h]
  rfl

namespace KnownUntil

variable {uses : String} {time : Nat}

/-- What is known and out of date is known until now at most. -/
theorem le_now {s : Session} (h : s.KnownUntil uses time) (hstale : ¬ s.Knows uses) :
    time ≤ s.now := by
  obtain ⟨a, ha, htime⟩ := h
  refine Nat.le_trans htime ?_
  by_contra hlt
  exact hstale ⟨a, ha, Nat.lt_of_not_le hlt⟩

/-- What is known stays known when a text is asked about that is not known. -/
theorem afterAsking {s : Session} (h : s.KnownUntil uses time) {other : String}
    (hstale : ¬ s.Knows other) : (s.afterAsking other).KnownUntil uses time := by
  by_cases hsame : uses = other
  · subst hsame
    by_cases hfits : Action.Fits s.sources s.lifetimes s.now uses
    · -- the old action is out of date, so the new one is good for longer
      obtain ⟨a, ha, htime⟩ := knownUntil_afterAsking hfits
      exact ⟨a, ha, Nat.le_trans (h.le_now hstale) (Nat.le_trans (Nat.le_add_right _ _) htime)⟩
    · obtain ⟨fault, htold⟩ := Action.exists_told_eq_error hfits
      obtain ⟨a, ha, htime⟩ := h
      refine ⟨a, ?_, htime⟩
      rw [get?_afterAsking, if_pos rfl, tells, htold]
      exact ha
  · obtain ⟨a, ha, htime⟩ := h
    refine ⟨a, ?_, htime⟩
    rw [get?_afterAsking, if_neg hsame]
    exact ha

/-- What is known stays known in every event that may not forget it. -/
theorem next {s : Session} (h : s.KnownUntil uses time) {event : Event}
    (hkeep : ¬ event.MayForget uses) : (s.next event).KnownUntil uses time := by
  cases hasked : event.asked? with
  | none =>
    obtain ⟨a, ha, htime⟩ := h
    exact ⟨a, ((next_of_not_asked hasked).2 uses hkeep).trans ha, htime⟩
  | some other =>
    by_cases hknows : s.Knows other
    · rw [next_of_knows hasked hknows]
      exact h
    · rw [next_of_not_knows hasked hknows]
      exact h.afterAsking hknows

/-- What is known stays known in every row of events that may not forget it. -/
theorem after {events : List Event} : ∀ {s : Session}, s.KnownUntil uses time →
    (∀ event ∈ events, ¬ event.MayForget uses) → (s.after events).KnownUntil uses time := by
  induction events with
  | nil => exact fun h _ => h
  | cons event events ih =>
    intro s h hkeep
    rw [after_cons]
    exact ih (h.next (hkeep event (List.mem_cons_self ..)))
      fun other hother => hkeep other (List.mem_cons_of_mem _ hother)

end KnownUntil

/-! ## Which calls are made -/

section callsOf

variable {s : Session} {event : Event} {uses : String}

theorem callsOf_of_knows (hasked : event.asked? = some uses) (h : s.Knows uses) :
    s.callsOf event = [] := by
  rw [callsOf, next_of_knows hasked h, List.drop_length]

theorem callsOf_of_not_knows (hasked : event.asked? = some uses) (h : ¬ s.Knows uses) :
    s.callsOf event = Action.callsFor s.sources s.lifetimes s.now uses := by
  rw [callsOf, next_of_not_knows hasked h]
  exact List.drop_left

theorem callsOf_of_not_asked (hasked : event.asked? = none) : s.callsOf event = [] := by
  rw [callsOf, (next_of_not_asked hasked).1, List.drop_length]

/-- The calls of an event are added to those made so far. -/
theorem calls_next (s : Session) (event : Event) :
    (s.next event).calls = s.calls ++ s.callsOf event := by
  cases hasked : event.asked? with
  | none => rw [callsOf_of_not_asked hasked, (next_of_not_asked hasked).1, List.append_nil]
  | some uses =>
    by_cases hknows : s.Knows uses
    · rw [callsOf_of_knows hasked hknows, next_of_knows hasked hknows, List.append_nil]
    · rw [callsOf_of_not_knows hasked hknows, next_of_not_knows hasked hknows]
      rfl

/-- If there is a call for a text, it was not known, and a success would have been good until a
time that there is. -/
theorem of_callsOf_ne_nil (hasked : event.asked? = some uses) (h : s.callsOf event ≠ []) :
    ¬ s.Knows uses ∧ s.now + s.lifetimes.success ≤ Time.latest := by
  have hstale : ¬ s.Knows uses := fun hknows => h (callsOf_of_knows hasked hknows)
  refine ⟨hstale, ?_⟩
  by_contra hlt
  rw [callsOf_of_not_knows hasked hstale, Action.callsFor, if_neg hlt] at h
  exact h rfl

/-- Without an account the host is not asked. -/
theorem fetch_notMem_callsOf (s : Session) (event : Event) (file : RemoteFile)
    (haccount : s.sources.account = some false) : Call.fetch file ∉ s.callsOf event := by
  cases hasked : event.asked? with
  | none =>
    rw [callsOf_of_not_asked hasked]
    exact List.not_mem_nil
  | some uses =>
    by_cases hknows : s.Knows uses
    · rw [callsOf_of_knows hasked hknows]
      exact List.not_mem_nil
    · rw [callsOf_of_not_knows hasked hknows, Action.callsFor]
      split
      · cases Reference.ofUses uses.toList <;>
          simp [Sources.callFor?, Sources.isAccountAvailable, haccount]
      · exact List.not_mem_nil

/-- If an event that asks the sources is answered, there was no fault. -/
theorem fits_of_perform_eq_ok (hasked : event.asked? = some uses) (hstale : ¬ s.Knows uses)
    {reply : Reply} (h : ((perform event).run.run s).1 = .ok reply) :
    Action.Fits s.sources s.lifetimes s.now uses := by
  by_contra hfits
  obtain ⟨fault, hfault⟩ := Action.exists_told_eq_error hfits
  obtain ⟨read, hrun⟩ := exists_run_perform_eq hasked
  rw [hrun, run_resolve_of_not_knows hstale, tells, hfault] at h
  cases h

/-- Two calls for a text that is not forgotten between them are a lifetime apart, if the first of
them led to an answer. -/
theorem add_lifetime_le_now {first second : Event} {between : List Event}
    (hfirst : first.asked? = some uses) (hsecond : second.asked? = some uses)
    (hkeep : ∀ event ∈ between, ¬ event.MayForget uses)
    (hreply : ∃ reply, ((perform first).run.run s).1 = .ok reply)
    (hfirstCall : s.callsOf first ≠ [])
    (hsecondCall : (s.after (first :: between)).callsOf second ≠ []) :
    s.now + Action.lifetime s.sources s.lifetimes uses ≤ (s.after (first :: between)).now := by
  obtain ⟨reply, hreply⟩ := hreply
  have hstale := (of_callsOf_ne_nil hfirst hfirstCall).1
  have hknown := knownUntil_afterAsking (fits_of_perform_eq_ok hfirst hstale hreply)
  rw [← next_of_not_knows hfirst hstale] at hknown
  exact (hknown.after hkeep).le_now (of_callsOf_ne_nil hsecond hsecondCall).1

end callsOf

/-- **Which calls are made at every point of every run.**  An event that asks for an action makes
one call if the action is not known and the text names a file, and otherwise none; without an
account the host is not asked.  But there is no call either if the lifetime of a success is too
long.  Between two calls for a text that is not forgotten meanwhile, the clock has moved on by the
lifetime of what the first call has found, unless there was a fault. -/
theorem calls_spec (start : Session) (before : List Event) :
    let s := start.after before
    (∀ event, (s.next event).calls = s.calls ++ s.callsOf event) ∧
    (∀ event uses, event.asked? = some uses → ¬ s.Knows uses →
      s.callsOf event = if s.now + s.lifetimes.success ≤ Time.latest then
          match Reference.ofUses uses.toList with
          | .remote file => [if s.sources.isAccountAvailable then .fetch file else .refused file]
          | .project path => [.read path]
          | .docker _ => []
          | .unresolved => []
        else []) ∧
    (∀ event uses, event.asked? = some uses → s.Knows uses →
      s.callsOf event = [] ∧ s.next event = s) ∧
    (∀ event, event.asked? = none → s.callsOf event = []) ∧
    (∀ event file, s.sources.account = some false → Call.fetch file ∉ s.callsOf event) ∧
    (∀ first between second uses, first.asked? = some uses → second.asked? = some uses →
      (∀ event ∈ between, ¬ event.MayForget uses) →
      (∃ reply, ((perform first).run.run s).1 = .ok reply) →
      s.callsOf first ≠ [] → (s.after (first :: between)).callsOf second ≠ [] →
      s.now + Action.lifetime s.sources s.lifetimes uses
        ≤ (s.after (first :: between)).now) := by
  intro s
  refine ⟨s.calls_next, ?_, ?_, fun _ => callsOf_of_not_asked, s.fetch_notMem_callsOf,
    fun _ _ _ _ => add_lifetime_le_now⟩
  · intro event uses hasked hstale
    rw [callsOf_of_not_knows hasked hstale, Action.callsFor]
    cases Reference.ofUses uses.toList <;> rfl
  · intro event uses hasked hknows
    exact ⟨callsOf_of_knows hasked hknows, next_of_knows hasked hknows⟩

/-- A definition that is not there is asked for again once the failure is out of date. -/
theorem callsOf_missing_definition :
    let s := start ⟨5, 3⟩ Sources.offline 0
    let later := s.after [.resolve "./a", .advance 3]
    s.callsOf (.resolve "./a") = [.read "./a/action.yml".toList] ∧
    later.callsOf (.resolve "./a") = [.read "./a/action.yml".toList] ∧
    s.now + Action.lifetime s.sources s.lifetimes "./a" ≤ later.now := by
  intro s later
  have hfirst : s.callsOf (.resolve "./a") = [.read "./a/action.yml".toList] := by
    decide +kernel
  have hsecond : later.callsOf (.resolve "./a") = [.read "./a/action.yml".toList] := by
    decide +kernel
  refine ⟨hfirst, hsecond, ?_⟩
  refine (calls_spec s []).2.2.2.2.2 (.resolve "./a") [.advance 3] (.resolve "./a") "./a" rfl rfl
    ?_ ⟨_, rfl⟩ (hfirst ▸ List.cons_ne_nil _ _) (hsecond ▸ List.cons_ne_nil _ _)
  intro event hevent
  rw [List.mem_singleton.mp hevent]
  exact not_false

/-- **If a success is good for the longest time that can be said, no call is made after the first
second**, although nothing is known of the text and it names a file of a repository. -/
theorem callsOf_longest_lifetime :
    let s := start ⟨Time.latest, 600⟩ Sources.offline 1
    let file : RemoteFile :=
      ⟨"a".toList, "b".toList, "action.yml".toList, "v1".toList⟩
    ¬ s.Knows "a/b@v1" ∧ Reference.ofUses "a/b@v1".toList = .remote file ∧
      s.sources.isAccountAvailable = true ∧ s.callsOf (.resolve "a/b@v1") = [] := by
  refine ⟨?_, by decide +kernel, rfl, by decide +kernel⟩
  rintro ⟨a, ha, -⟩
  cases ha

end Session

end WorkflowLens
