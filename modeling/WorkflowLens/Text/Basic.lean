/-!
# Texts and byte offsets

A document is handled as the list of its characters.  Places in it are byte offsets into its
UTF-8 form, because that is how an editor addresses a caret, so an offset may fall outside the
text or inside a character.

* `byteSize`: the number of bytes of a text, with `byteSize_append`.
* `cut`: the two sides of an offset, refused when the offset is no character boundary.
* `splitAtFloor`: the two sides of the last boundary at or before an offset; never refused.
* `slice`: the text between two offsets, by two cuts.
-/

namespace WorkflowLens

/-- A document or a piece of one. -/
abbrev Text := List Char

/-- The reason why a text cannot be cut at an offset. -/
inductive CutFault where
  /-- The offset lies past the end of the text or inside a character. -/
  | noBoundary
  deriving DecidableEq, Repr

namespace Text

/-- The number of bytes of a text in UTF-8. -/
def byteSize : Text → Nat
  | [] => 0
  | c :: t => c.utf8Size + byteSize t

@[simp] theorem byteSize_nil : byteSize [] = 0 := rfl

@[simp] theorem byteSize_cons (c : Char) (t : Text) :
    byteSize (c :: t) = c.utf8Size + byteSize t := rfl

@[simp] theorem byteSize_append (s t : Text) : byteSize (s ++ t) = byteSize s + byteSize t := by
  induction s with
  | nil => simp
  | cons c s ih => simp [ih, Nat.add_assoc]

/-! ## Cutting -/

/-- The text before and the text after a byte offset. -/
def cut : Text → Nat → Except CutFault (Text × Text)
  | t, 0 => .ok ([], t)
  | [], _ + 1 => .error .noBoundary
  | c :: t, n + 1 =>
    if c.utf8Size ≤ n + 1 then
      match cut t (n + 1 - c.utf8Size) with
      | .ok (before, after) => .ok (c :: before, after)
      | .error fault => .error fault
    else .error .noBoundary

/-- The text between two byte offsets. -/
def slice (t : Text) (start stop : Nat) : Except CutFault Text := do
  let (before, _) ← t.cut stop
  let (_, inner) ← cut before start
  return inner

/-- Whether a byte offset lies between two characters or at an end of the text. -/
def isBoundary (t : Text) (offset : Nat) : Bool :=
  match t.cut offset with
  | .ok _ => true
  | .error _ => false

/-- The two sides of the last character boundary at or before a byte offset. -/
def splitAtFloor : Text → Nat → Text × Text
  | [], _ => ([], [])
  | c :: t, n =>
    if c.utf8Size ≤ n then
      let (before, after) := splitAtFloor t (n - c.utf8Size)
      (c :: before, after)
    else ([], c :: t)

/-- A cut loses nothing, and its first part fills the bytes before the offset. -/
theorem cut_sound : ∀ {t before after : Text} {n : Nat},
    t.cut n = .ok (before, after) → t = before ++ after ∧ byteSize before = n
  | t, before, after, 0, h => by
    cases t <;> · simp only [cut, Except.ok.injEq, Prod.mk.injEq] at h; simp [← h.1, ← h.2]
  | [], before, after, n + 1, h => by simp [cut] at h
  | c :: t, before, after, n + 1, h => by
    rw [cut] at h
    split at h
    · split at h
      · next hle _ b a hcut =>
        simp only [Except.ok.injEq, Prod.mk.injEq] at h
        have ih := cut_sound hcut
        rw [← h.1, ← h.2, ih.1]
        exact ⟨rfl, by rw [byteSize_cons, ih.2]; omega⟩
      · cases h
    · cases h

/-- Every split of a text is a cut at the size of its first part. -/
theorem cut_append : ∀ (before after : Text),
    cut (before ++ after) (byteSize before) = .ok (before, after)
  | [], after => by cases after <;> simp [cut]
  | c :: before, after => by
    have hpos := c.utf8Size_pos
    have hsize : byteSize (c :: before) = (c.utf8Size + byteSize before - 1) + 1 := by
      rw [byteSize_cons]; omega
    rw [hsize, List.cons_append, cut, show c.utf8Size + byteSize before - 1 + 1 - c.utf8Size
      = byteSize before by omega, cut_append before after]
    exact if_pos (by omega)

/-- Splitting at a floor loses nothing. -/
theorem splitAtFloor_append (t : Text) (n : Nat) :
    (t.splitAtFloor n).1 ++ (t.splitAtFloor n).2 = t := by
  induction t generalizing n with
  | nil => rfl
  | cons c t ih =>
    rw [splitAtFloor]
    split
    · simp [ih]
    · rfl

/-! ## Runs at the end -/

/-- The text without its longest final run of characters that satisfy `p`. -/
def dropEndWhile (p : Char → Bool) (t : Text) : Text :=
  (t.reverse.dropWhile p).reverse

/-- The longest final run of characters that satisfy `p`. -/
def takeEndWhile (p : Char → Bool) (t : Text) : Text :=
  (t.reverse.takeWhile p).reverse

/-- The two halves of a text around its final run make up the text. -/
theorem dropEndWhile_append_takeEndWhile (p : Char → Bool) (t : Text) :
    dropEndWhile p t ++ takeEndWhile p t = t := by
  rw [dropEndWhile, takeEndWhile, ← List.reverse_append, List.takeWhile_append_dropWhile,
    List.reverse_reverse]

end Text

end WorkflowLens
