import WorkflowLens.Action.Basic

/-!
# Caches of actions

A cache keeps actions by their texts.  There is at most one action for a text, and this is part of
the type.

* `Cache.get?`, with one lemma for each operation: what it does to `get?`.
* `Cache.fresh?`: the action of a text, if it is not out of date.
* `Cache.evict`: the cache without the actions that are out of date.
-/

namespace WorkflowLens

/-- Actions by their texts. -/
structure Cache where
  actions : List Action
  nodup_uses : (actions.map Action.uses).Nodup

namespace Cache

/-- The cache without actions. -/
def empty : Cache := ⟨[], List.nodup_nil⟩

instance : Inhabited Cache := ⟨empty⟩

/-- The number of actions. -/
def size (c : Cache) : Nat := c.actions.length

/-- The action of a text. -/
def get? (c : Cache) (uses : String) : Option Action :=
  c.actions.find? fun a => a.uses == uses

/-- The action of a text, if it is not out of date. -/
def fresh? (c : Cache) (uses : String) (now : Nat) : Option Action :=
  (c.get? uses).filter fun a => !a.isExpired now

/-- The cache with those actions only that satisfy `p`. -/
def filter (c : Cache) (p : Action → Bool) : Cache :=
  ⟨c.actions.filter p, List.Nodup.sublist (List.filter_sublist.map Action.uses) c.nodup_uses⟩

/-- The cache with an action, which replaces the one of the same text. -/
def insert (c : Cache) (a : Action) : Cache where
  actions := a :: (c.filter fun b => b.uses != a.uses).actions
  nodup_uses := by
    rw [List.map_cons, List.nodup_cons]
    refine ⟨?_, (c.filter fun b => b.uses != a.uses).nodup_uses⟩
    intro h
    obtain ⟨b, hb, heq⟩ := List.mem_map.mp h
    have hne := (List.mem_filter.mp hb).2
    simp [heq] at hne

/-- The cache without the actions that are out of date. -/
def evict (c : Cache) (now : Nat) : Cache := c.filter fun a => !a.isExpired now

/-! ## Look-ups -/

@[simp] theorem get?_empty (uses : String) : empty.get? uses = none := rfl

/-- An action that is found has the text that was looked for. -/
theorem uses_of_get? {c : Cache} {uses : String} {a : Action} (h : c.get? uses = some a) :
    a.uses = uses := by
  simpa using List.find?_some h

/-- Among the actions that satisfy `p` a text finds its action if that satisfies `p`. -/
theorem get?_filter (c : Cache) (p : Action → Bool) (uses : String) :
    (c.filter p).get? uses = (c.get? uses).filter p := by
  obtain ⟨actions, hnodup⟩ := c
  simp only [get?, filter]
  induction actions with
  | nil => rfl
  | cons b actions ih =>
    rw [List.map_cons, List.nodup_cons] at hnodup
    have hrest := ih hnodup.2
    by_cases hu : b.uses = uses
    · have hnone : (actions.filter p).find? (fun a => a.uses == uses) = none := by
        rw [List.find?_eq_none]
        intro a ha
        have hmem := List.mem_map_of_mem (f := Action.uses) (List.mem_filter.mp ha).1
        simp only [beq_iff_eq]
        exact fun h => hnodup.1 (hu ▸ h ▸ hmem)
      by_cases hp : p b
      · simp [hu, hp, Option.filter]
      · simp [hu, hp, hnone, Option.filter]
    · by_cases hp : p b <;> simp [hu, hp, hrest]

/-- Evicting forgets nothing that is not out of date. -/
theorem get?_evict (c : Cache) (now : Nat) (uses : String) :
    (c.evict now).get? uses = c.fresh? uses now :=
  c.get?_filter _ uses

/-- A text finds the action put in last under it. -/
theorem get?_insert (c : Cache) (a : Action) (uses : String) :
    (c.insert a).get? uses = if a.uses = uses then some a else c.get? uses := by
  by_cases h : a.uses = uses
  · simp [get?, insert, h]
  · have hne : (a.uses == uses) = false := by simpa using h
    simp only [get?, insert, filter, List.find?_cons, hne, List.find?_filter, if_neg h]
    congr 1
    funext b
    by_cases hb : b.uses = uses
    · simp [hb, Ne.symm h]
    · simp [hb]

end Cache

end WorkflowLens
