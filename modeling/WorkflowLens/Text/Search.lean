import WorkflowLens.Text.Basic

/-!
# Finding a text in a text

* `stripPrefix?`: the text after a given beginning, with `stripPrefix?_eq_some_iff`.
* `splitAtFirst?`, `splitAtLast?`: the sides of the first and of the last place where a needle
  stands.
* `contains`: whether there is such a place.
* `occurrencesFrom`: all places that do not overlap, from the left.
* `eraseAll`: the text without these places.
-/

namespace WorkflowLens.Text

/-- The text after `needle`, if the text begins with it. -/
def stripPrefix? : (needle t : Text) → Option Text
  | [], t => some t
  | _ :: _, [] => none
  | x :: needle, c :: t => if x = c then stripPrefix? needle t else none

/-- A text begins with `needle` exactly when it is `needle` followed by what is left. -/
theorem stripPrefix?_eq_some_iff {needle t rest : Text} :
    stripPrefix? needle t = some rest ↔ t = needle ++ rest := by
  induction needle generalizing t with
  | nil => simp [stripPrefix?]
  | cons x needle ih =>
    cases t with
    | nil => simp [stripPrefix?]
    | cons c t =>
      by_cases h : x = c
      · simp [stripPrefix?, h, ih]
      · simp [stripPrefix?, h, Ne.symm h]

/-- Whether the text begins with `needle`. -/
def startsWith (needle t : Text) : Bool :=
  (stripPrefix? needle t).isSome

/-- Whether the text ends with `needle`. -/
def endsWith (needle t : Text) : Bool :=
  startsWith needle.reverse t.reverse

/-- The texts before and after the first place where `needle` stands. -/
def splitAtFirst? (needle : Text) : Text → Option (Text × Text)
  | [] => (stripPrefix? needle []).map fun after => ([], after)
  | c :: t =>
    match stripPrefix? needle (c :: t) with
    | some after => some ([], after)
    | none => (splitAtFirst? needle t).map fun (before, after) => (c :: before, after)

/-- The texts before and after the last place where `needle` stands. -/
def splitAtLast? (needle : Text) : Text → Option (Text × Text)
  | [] => (stripPrefix? needle []).map fun after => ([], after)
  | c :: t =>
    match splitAtLast? needle t with
    | some (before, after) => some (c :: before, after)
    | none => (stripPrefix? needle (c :: t)).map fun after => ([], after)

/-- Whether `needle` stands somewhere in the text. -/
def contains (needle t : Text) : Bool :=
  (splitAtFirst? needle t).isSome

/-- The byte offset of the first place where `needle` stands. -/
def find? (needle t : Text) : Option Nat :=
  (splitAtFirst? needle t).map fun (before, _) => byteSize before

/-- The byte offsets, counted on from `offset`, of the places where `needle` stands, each search
going on after the end of the last find; the first `skip` characters are passed over. -/
def occurrencesFrom (needle : Text) : (offset skip : Nat) → Text → List Nat
  | _, _, [] => []
  | offset, skip + 1, c :: t => occurrencesFrom needle (offset + c.utf8Size) skip t
  | offset, 0, c :: t =>
    if startsWith needle (c :: t) then
      offset :: occurrencesFrom needle (offset + c.utf8Size) (needle.length - 1) t
    else occurrencesFrom needle (offset + c.utf8Size) 0 t

/-- The text without the places of `needle`, each search going on after the end of the last
find; the first `skip` characters are left out. -/
def eraseFrom (needle : Text) : (skip : Nat) → Text → Text
  | _, [] => []
  | skip + 1, _ :: t => eraseFrom needle skip t
  | 0, c :: t =>
    if startsWith needle (c :: t) then eraseFrom needle (needle.length - 1) t
    else c :: eraseFrom needle 0 t

/-- The text without the places of a nonempty `needle`. -/
def eraseAll (needle t : Text) : Text :=
  eraseFrom needle 0 t

/-- What stands on both sides of a find, with the needle between, is the text. -/
theorem splitAtFirst?_sound {needle : Text} : ∀ {t before after : Text},
    splitAtFirst? needle t = some (before, after) → t = before ++ needle ++ after
  | [], before, after, h => by
    simp only [splitAtFirst?, Option.map_eq_some_iff, Prod.mk.injEq] at h
    obtain ⟨rest, hrest, rfl, rfl⟩ := h
    exact stripPrefix?_eq_some_iff.mp hrest
  | c :: t, before, after, h => by
    rw [splitAtFirst?] at h
    split at h
    · next rest hrest =>
      simp only [Option.some.injEq, Prod.mk.injEq] at h
      rw [← h.1, ← h.2]
      exact stripPrefix?_eq_some_iff.mp hrest
    · simp only [Option.map_eq_some_iff, Prod.mk.injEq] at h
      obtain ⟨⟨b, a⟩, hsplit, rfl, rfl⟩ := h
      rw [splitAtFirst?_sound hsplit]
      rfl

/-- What stands on both sides of the last find, with the needle between, is the text. -/
theorem splitAtLast?_sound {needle : Text} : ∀ {t before after : Text},
    splitAtLast? needle t = some (before, after) → t = before ++ needle ++ after
  | [], before, after, h => by
    simp only [splitAtLast?, Option.map_eq_some_iff, Prod.mk.injEq] at h
    obtain ⟨rest, hrest, rfl, rfl⟩ := h
    exact stripPrefix?_eq_some_iff.mp hrest
  | c :: t, before, after, h => by
    rw [splitAtLast?] at h
    split at h
    · next b a hsplit =>
      simp only [Option.some.injEq, Prod.mk.injEq] at h
      rw [← h.1, ← h.2, splitAtLast?_sound hsplit]
      rfl
    · simp only [Option.map_eq_some_iff, Prod.mk.injEq] at h
      obtain ⟨rest, hrest, rfl, rfl⟩ := h
      exact stripPrefix?_eq_some_iff.mp hrest

end WorkflowLens.Text
