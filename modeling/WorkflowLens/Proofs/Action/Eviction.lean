import WorkflowLens.Proofs.Action.Calls

/-!
# Evictions cannot be noticed

An eviction takes actions out of the cache that are out of date.  Nobody who asks for an action
should be able to tell whether this has happened, because an action that is out of date is asked of
the sources anyway.  This holds as long as an eviction does not look ahead: an action that is out
of date at the time of the eviction has to be so whenever it is asked for later on.

Two runs, one of which leaves out some evictions, are followed side by side.  Their caches differ,
and the numbers of their actions do too.  What they have in common is which actions they give
fresh at a certain time, the latest one of the evictions so far.  The clock never goes back behind
this time, and every other event keeps what is in common: asking puts the same action into both
caches, or into none.  Where there is a fault, it is the same in both.

* `Cache.AgreesFrom`, with one lemma for each operation on caches.
* `Session.AgreesFrom.next`, `Session.AgreesFrom.evict`: what one event keeps.
* `Session.AgreesFrom.answers_eq`: what a run keeps, by induction on what is left out.
* `Session.answers_eq_of_evictsPast`: leaving out evictions changes no answer and no call.
-/

namespace WorkflowLens

/-! ## Caches with the same fresh actions -/

namespace Cache

/-- The caches give the same actions at a time. -/
def AgreesFrom (time : Nat) (c d : Cache) : Prop :=
  ∀ uses, c.fresh? uses time = d.fresh? uses time

/-- What is fresh at a time is found among what was fresh before. -/
theorem fresh?_of_le (c : Cache) (uses : String) {time now : Nat} (hle : time ≤ now) :
    c.fresh? uses now = (c.fresh? uses time).filter fun a => !a.isExpired now := by
  unfold fresh?
  rw [Option.filter_filter]
  congr 1
  funext a
  by_cases hnow : a.expiresAt ≤ now
  · simp [Action.isExpired, hnow]
  · have htime : ¬ a.expiresAt ≤ time := fun h => hnow (Nat.le_trans h hle)
    simp [Action.isExpired, hnow, htime]

theorem fresh?_insert (c : Cache) (a : Action) (uses : String) (time : Nat) :
    (c.insert a).fresh? uses time
      = if a.uses = uses then (some a).filter fun b => !b.isExpired time
        else c.fresh? uses time := by
  unfold fresh?
  rw [get?_insert]
  split <;> rfl

/-- An eviction keeps what is fresh at the time of the eviction and later. -/
theorem fresh?_evict (c : Cache) (uses : String) {time now : Nat} (hle : time ≤ now) :
    (c.evict time).fresh? uses now = c.fresh? uses now := by
  show ((c.evict time).get? uses).filter _ = _
  rw [get?_evict, c.fresh?_of_le uses hle]

namespace AgreesFrom

variable {c d : Cache} {time : Nat}

theorem refl (c : Cache) (time : Nat) : c.AgreesFrom time c := fun _ => rfl

theorem symm (h : c.AgreesFrom time d) : d.AgreesFrom time c := fun uses => (h uses).symm

theorem mono (h : c.AgreesFrom time d) {now : Nat} (hle : time ≤ now) : c.AgreesFrom now d := by
  intro uses
  rw [c.fresh?_of_le uses hle, d.fresh?_of_le uses hle, h uses]

theorem insert (h : c.AgreesFrom time d) (a : Action) :
    (c.insert a).AgreesFrom time (d.insert a) := by
  intro uses
  rw [fresh?_insert, fresh?_insert, h uses]

theorem evict (h : c.AgreesFrom time d) {past : Nat} (hle : past ≤ time) :
    (c.evict past).AgreesFrom time d := by
  intro uses
  rw [fresh?_evict c uses hle, h uses]

theorem insertTold (h : c.AgreesFrom time d) (told : Except Fault Action) :
    (c.insertTold told).AgreesFrom time (d.insertTold told) := by
  cases told with
  | ok a => exact h.insert a
  | error fault => exact h

end AgreesFrom

end Cache

/-! ## Events -/

/-- Whether an event is an eviction. -/
def Event.isEvict : Event → Bool
  | .evict _ => true
  | _ => false

namespace Session

/-- The events of a row that ask for an action, with their answers. -/
def answers (s : Session) (events : List Event) : List (Event × Except Fault Reply) :=
  (events.zip ((run events).run s).1).filter fun p => p.1.asked?.isSome

theorem answers_cons (s : Session) (event : Event) (events : List Event) :
    s.answers (event :: events)
      = if event.asked?.isSome then
          (event, ((perform event).run.run s).1) :: (s.next event).answers events
        else (s.next event).answers events := by
  show (((event, ((perform event).run.run s).1) ::
      events.zip ((run events).run (s.next event)).1).filter fun p => p.1.asked?.isSome) = _
  rw [List.filter_cons]
  rfl

/-- Every eviction of a row is at a time that is past, and the clock is not set back behind it
afterwards. -/
def EvictsPast (s : Session) (events : List Event) : Prop :=
  ∀ before time later, events = before ++ .evict time :: later →
    time ≤ (s.after before).now ∧ ∀ clock, .setClock clock ∈ later → time ≤ clock

theorem evictsPast_nil (s : Session) : s.EvictsPast [] := by
  intro before time later h
  cases before <;> cases h

theorem evictsPast_cons_iff {s : Session} {event : Event} {events : List Event} :
    s.EvictsPast (event :: events) ↔
      (∀ time, event = .evict time →
        time ≤ s.now ∧ ∀ clock, .setClock clock ∈ events → time ≤ clock) ∧
      (s.next event).EvictsPast events := by
  constructor
  · intro h
    refine ⟨?_, ?_⟩
    · rintro time rfl
      exact h [] time events rfl
    · rintro before time later rfl
      exact h (event :: before) time later rfl
  · rintro ⟨hhead, htail⟩ before time later heq
    cases before with
    | nil =>
      obtain ⟨rfl, rfl⟩ := List.cons.inj heq
      exact hhead time rfl
    | cons first before =>
      obtain ⟨rfl, rfl⟩ := List.cons.inj heq
      exact htail before time later rfl

/-! ## Two sessions side by side -/

/-- The sessions differ in the cache only, and the caches give the same actions from a time on that
is past. -/
structure AgreesFrom (time : Nat) (s t : Session) : Prop where
  eq : t = { s with cache := t.cache }
  cache : s.cache.AgreesFrom time t.cache
  le_now : time ≤ s.now

namespace AgreesFrom

variable {s t : Session} {time : Nat} {event : Event}

theorem refl (s : Session) : AgreesFrom 0 s s := ⟨rfl, .refl _ 0, Nat.zero_le _⟩

theorem symm (h : AgreesFrom time s t) : AgreesFrom time t s where
  eq := by rw [h.eq]
  cache := h.cache.symm
  le_now := by
    rw [h.eq]
    exact h.le_now

theorem mono (h : AgreesFrom time s t) {later : Nat} (hle : time ≤ later) (hnow : later ≤ s.now) :
    AgreesFrom later s t :=
  ⟨h.eq, h.cache.mono hle, hnow⟩

theorem calls_eq (h : AgreesFrom time s t) : s.calls = t.calls := by rw [h.eq]

/-- An eviction in one of the sessions keeps them agreeing, from its time on. -/
theorem evict (h : AgreesFrom time s t) {past : Nat} (hpast : past ≤ s.now) :
    AgreesFrom (max time past) (s.next (.evict past)) t := by
  have hlater := h.mono (Nat.le_max_left time past) (Nat.max_le.mpr ⟨h.le_now, hpast⟩)
  exact ⟨hlater.eq, hlater.cache.evict (Nat.le_max_right time past), hlater.le_now⟩

/-- An eviction in both sessions keeps them agreeing, from its time on. -/
theorem evict_both (h : AgreesFrom time s t) {past : Nat} (hpast : past ≤ s.now) :
    AgreesFrom (max time past) (s.next (.evict past)) (t.next (.evict past)) := by
  have hleft := h.evict hpast
  have hboth := hleft.symm.evict (Nat.le_trans (Nat.le_max_right time past) hleft.symm.le_now)
  rw [Nat.max_eq_left (Nat.le_max_right time past)] at hboth
  exact hboth.symm

/-- Asking for an action has the same answer in both sessions, and keeps them agreeing. -/
theorem resolve (h : AgreesFrom time s t) (uses : String) :
    ((Session.resolve uses).run.run s).1 = ((Session.resolve uses).run.run t).1 ∧
      AgreesFrom time ((Session.resolve uses).run.run s).2
        ((Session.resolve uses).run.run t).2 := by
  obtain ⟨d, rfl⟩ : ∃ d, t = { s with cache := d } := ⟨t.cache, h.eq⟩
  have hcache : s.cache.AgreesFrom time d := h.cache
  have hsame : s.cache.fresh? uses s.now = d.fresh? uses s.now := hcache.mono h.le_now uses
  cases hfresh : d.fresh? uses s.now with
  | some a =>
    rw [run_resolve_of_fresh (hsame.trans hfresh),
      run_resolve_of_fresh (s := { s with cache := d }) hfresh]
    exact ⟨rfl, h⟩
  | none =>
    rw [run_resolve_of_not_fresh (hsame.trans hfresh),
      run_resolve_of_not_fresh (s := { s with cache := d }) hfresh]
    exact ⟨rfl, rfl, hcache.insertTold (s.tells uses), h.le_now⟩

/-- Every event but an eviction keeps two sessions agreeing, unless it sets the clock back. -/
theorem next (h : AgreesFrom time s t) (hevict : event.isEvict = false)
    (hclock : ∀ clock, event = .setClock clock → time ≤ clock) :
    AgreesFrom time (s.next event) (t.next event) := by
  cases hasked : event.asked? with
  | some uses =>
    rw [next_of_asked hasked, next_of_asked hasked]
    exact (h.resolve uses).2
  | none =>
  obtain ⟨d, rfl⟩ : ∃ d, t = { s with cache := d } := ⟨t.cache, h.eq⟩
  have hcache : s.cache.AgreesFrom time d := h.cache
  cases event with
  | resolve _ => cases hasked
  | inputs _ => cases hasked
  | outputs _ => cases hasked
  | advance seconds =>
    rw [next_advance, next_advance]
    split
    · exact ⟨rfl, hcache, Nat.le_trans h.le_now (Nat.le_add_right _ _)⟩
    · exact h
  | setClock clock => exact ⟨rfl, hcache, hclock clock rfl⟩
  | setRemote _ _ => exact ⟨rfl, hcache, h.le_now⟩
  | setFile _ _ => exact ⟨rfl, hcache, h.le_now⟩
  | setAccount _ => exact ⟨rfl, hcache, h.le_now⟩
  | insert _ _ => exact ⟨rfl, hcache.insert _, h.le_now⟩
  | store a => exact ⟨rfl, hcache.insert a, h.le_now⟩
  | evict _ => cases hevict
  | clear => exact ⟨rfl, .refl _ time, h.le_now⟩

/-- An event that asks for an action has the same answer in both sessions. -/
theorem reply_eq (h : AgreesFrom time s t) (hasked : event.asked?.isSome = true) :
    ((perform event).run.run s).1 = ((perform event).run.run t).1 := by
  obtain ⟨uses, huses⟩ := Option.isSome_iff_exists.mp hasked
  obtain ⟨reply, hrun⟩ := exists_run_perform_eq huses
  rw [hrun, hrun, (h.resolve uses).1]

/-- **Leaving out evictions keeps two sessions agreeing.**  One of them goes through a row of
events and the other one through what is left of it; their answers are the same. -/
theorem answers_eq {events thinned : List Event} (hsub : thinned.Sublist events)
    (hkept : thinned.filter (!·.isEvict) = events.filter (!·.isEvict)) :
    ∀ {s t : Session} {time : Nat}, AgreesFrom time s t → s.EvictsPast events →
      (∀ clock, .setClock clock ∈ events → time ≤ clock) →
      t.answers thinned = s.answers events ∧
        ∃ later, AgreesFrom later (s.after events) (t.after thinned) := by
  -- the time of agreement grows with every eviction, and all later settings of the clock respect it
  have hclocks : ∀ {time past : Nat} {event : Event} {events : List Event},
      (∀ clock, .setClock clock ∈ event :: events → time ≤ clock) →
      (∀ clock, .setClock clock ∈ events → past ≤ clock) →
      ∀ clock, .setClock clock ∈ events → max time past ≤ clock := by
    intro time past event events htime hpast clock hclock
    exact Nat.max_le.mpr ⟨htime clock (List.mem_cons_of_mem event hclock), hpast clock hclock⟩
  induction hsub with
  | slnil =>
    intro s t time h _ _
    exact ⟨rfl, time, h⟩
  | @cons thinned events event hsub ih =>
    intro s t time h hpast htime
    obtain ⟨hhead, htail⟩ := evictsPast_cons_iff.mp hpast
    cases hevict : event.isEvict with
    | false =>
      -- only an eviction can be left out
      rw [List.filter_cons_of_pos (by simp [hevict])] at hkept
      have hlength := (hsub.filter (!·.isEvict)).length_le
      rw [hkept, List.length_cons] at hlength
      omega
    | true =>
      rw [List.filter_cons_of_neg (by simp [hevict])] at hkept
      cases event with
      | evict past =>
        obtain ⟨hnow, hlater⟩ := hhead past rfl
        exact ih hkept (h.evict hnow) htail (hclocks htime hlater)
      | _ => cases hevict
  | @cons_cons thinned events event hsub ih =>
    intro s t time h hpast htime
    obtain ⟨hhead, htail⟩ := evictsPast_cons_iff.mp hpast
    cases hevict : event.isEvict with
    | false =>
      rw [List.filter_cons_of_pos (by simp [hevict]),
        List.filter_cons_of_pos (by simp [hevict])] at hkept
      have hnext := h.next hevict fun clock hclock =>
        htime clock (hclock ▸ List.mem_cons_self ..)
      obtain ⟨hanswers, hagrees⟩ := ih (List.cons.inj hkept).2 hnext htail
        fun clock hclock => htime clock (List.mem_cons_of_mem event hclock)
      refine ⟨?_, hagrees⟩
      rw [answers_cons, answers_cons, hanswers]
      by_cases hasked : event.asked?.isSome = true
      · rw [if_pos hasked, if_pos hasked, h.reply_eq hasked]
      · rw [if_neg hasked, if_neg hasked]
    | true =>
      rw [List.filter_cons_of_neg (by simp [hevict]),
        List.filter_cons_of_neg (by simp [hevict])] at hkept
      cases event with
      | evict past =>
        obtain ⟨hnow, hlater⟩ := hhead past rfl
        exact ih hkept (h.evict_both hnow) htail (hclocks htime hlater)
      | _ => cases hevict

end AgreesFrom

/-- **Evictions cannot be noticed.**  If every eviction of a run is at a time that is past, and the
clock is not set back behind it afterwards, then any of the evictions can be left out of the run:
every event that asks for an action has the same answer, and the calls are the same. -/
theorem answers_eq_of_evictsPast (s : Session) {events thinned : List Event}
    (hpast : s.EvictsPast events) (hsub : thinned.Sublist events)
    (hkept : thinned.filter (!·.isEvict) = events.filter (!·.isEvict)) :
    s.answers thinned = s.answers events ∧ (s.after thinned).calls = (s.after events).calls := by
  obtain ⟨hanswers, later, hagrees⟩ := AgreesFrom.answers_eq hsub hkept (.refl s) hpast
    fun clock _ => Nat.zero_le clock
  exact ⟨hanswers, hagrees.calls_eq.symm⟩

/-- An action that is out of date exactly now is evicted, and the clock goes on.  It is asked for
again in either case. -/
theorem answers_missing_definition :
    let s := start ⟨5, 3⟩ Sources.offline 0
    let events : List Event :=
      [.resolve "./a", .advance 3, .evict 3, .setClock 4, .inputs "./a"]
    let thinned : List Event := [.resolve "./a", .advance 3, .setClock 4, .inputs "./a"]
    s.EvictsPast events ∧ s.answers thinned = s.answers events ∧
      (s.after thinned).calls = (s.after events).calls ∧
      (s.after events).calls = [.read "./a/action.yml".toList, .read "./a/action.yml".toList] := by
  intro s events thinned
  have hpast : s.EvictsPast events := by
    refine evictsPast_cons_iff.mpr ⟨nofun, evictsPast_cons_iff.mpr ⟨nofun, ?_⟩⟩
    refine evictsPast_cons_iff.mpr ⟨?_, evictsPast_cons_iff.mpr ⟨nofun, ?_⟩⟩
    · rintro time ⟨⟩
      refine ⟨by decide +kernel, fun clock hclock => ?_⟩
      simp only [List.mem_cons, Event.setClock.injEq, reduceCtorEq, List.not_mem_nil, or_false]
        at hclock
      omega
    · exact evictsPast_cons_iff.mpr ⟨nofun, evictsPast_nil _⟩
  have hsub : thinned.Sublist events :=
    .cons_cons _ (.cons_cons _ (.cons _ (List.Sublist.refl _)))
  have hsame := answers_eq_of_evictsPast s hpast hsub rfl
  exact ⟨hpast, hsame.1, hsame.2, by decide +kernel⟩

end Session

end WorkflowLens
