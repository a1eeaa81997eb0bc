import Mathlib.Order.Bounds.Basic
import WorkflowLens.Proofs.Text.Lines
import WorkflowLens.Proofs.Text.Runs

/-!
# The line and the word at a caret

A caret past the end of a text or inside a character stands for the last place before it between
two characters.  From there the beginning of the line is searched to the left and its end to the
right, and each caret starts these searches anew.  That all carets on a line find the same line is
seen from what a line is, without the searches: no character in it ends a line, and on each side
the text ends or such a character stands there.  Two lines around one place are the same, since a
line that went further than the other would contain the character that ends the other.

The word at a caret is searched in the same way, but with no regard for lines.  It stays on the line
because no character that ends a line belongs to a word.

* `IsRun`: a stretch between two offsets all of whose characters are of one kind.
* `isGreatest_byteSize_splitAtFloor`: the place that a caret stands for.
* `IsLineAround`: what the line around a place is, with `IsLineAround.start_eq_and_stop_eq`.
* `isLineAround_caretLine`, `caretLine_eq_of_le_of_le`: the line that is found, and that it is the
  same for all offsets on it.
* `isLeast_dropEndWhile`, `exists_isLeast_wordBefore`: the word that is found is the longest one.
* `caretLine_wordBefore_spec`: all of this for every text and every offset.
-/

namespace WorkflowLens.Text

variable {t : Text}

/-! ## Stretches of one kind of characters -/

/-- A stretch of the text, cut out between two offsets, whose characters all satisfy `p`. -/
def IsRun (t : Text) (p : Char → Prop) (start stop : Nat) : Prop :=
  ∃ run, t.slice start stop = .ok run ∧ ∀ c ∈ run, p c

namespace IsRun

variable {p : Char → Prop} {start stop : Nat}

theorem mono {q : Char → Prop} (h : t.IsRun p start stop) (hpq : ∀ c, p c → q c) :
    t.IsRun q start stop := by
  obtain ⟨run, hslice, hrun⟩ := h
  exact ⟨run, hslice, fun c hc => hpq c (hrun c hc)⟩

theorem stop_le_byteSize (h : t.IsRun p start stop) : stop ≤ t.byteSize := by
  obtain ⟨run, hslice, -⟩ := h
  obtain ⟨before, after, rfl, -, rfl⟩ := slice_eq_ok_iff.mp hslice
  rw [byteSize_append _ after]
  exact Nat.le_add_right _ _

/-- A character that begins between the ends of a stretch belongs to it. -/
theorem of_append_cons {before after : Text} {c : Char}
    (h : (before ++ c :: after).IsRun p start stop) (hstart : start ≤ before.byteSize)
    (hstop : before.byteSize < stop) : p c := by
  obtain ⟨run, hslice, hrun⟩ := h
  obtain ⟨past, rest, htext, rfl, rfl⟩ := slice_eq_ok_iff.mp hslice
  rw [List.append_assoc] at htext
  obtain ⟨inner, rfl, hinner⟩ := exists_append_of_byteSize_le htext.symm hstart
  rw [byteSize_append, byteSize_append] at hstop
  -- `inner` is the part of the run before the character, and `more` begins with the character
  obtain ⟨more, rfl, hmore⟩ := exists_append_of_byteSize_le hinner.symm (by omega)
  cases more with
  | nil =>
    rw [List.append_nil] at hstop
    omega
  | cons d more =>
    rw [List.cons_append, List.cons.injEq] at hmore
    rw [hmore.1]
    exact hrun d (List.mem_append_right _ List.mem_cons_self)

end IsRun

/-- What is cut out up to the end of a part of the text is the end of that part. -/
theorem slice_append_eq_ok_iff {before after run : Text} {n : Nat} :
    (before ++ after).slice n before.byteSize = .ok run ↔
      ∃ past, before = past ++ run ∧ past.byteSize = n := by
  rw [slice_eq_ok_iff]
  constructor
  · rintro ⟨past, rest, htext, hn, hstop⟩
    obtain ⟨rfl, rfl⟩ := append_inj_of_byteSize_eq htext hstop.symm
    exact ⟨past, rfl, hn⟩
  · rintro ⟨past, rfl, rfl⟩
    exact ⟨past, after, rfl, rfl, rfl⟩

theorem slice_takeEndWhile (p : Char → Bool) (before after : Text) :
    (before ++ after).slice (byteSize (before.dropEndWhile p)) before.byteSize
      = .ok (before.takeEndWhile p) :=
  slice_append_eq_ok_iff.mpr ⟨_, (dropEndWhile_append_takeEndWhile p before).symm, rfl⟩

/-- The run at the end of a text is the longest stretch of its characters that ends there. -/
theorem isLeast_dropEndWhile (p : Char → Bool) (before after : Text) :
    IsLeast {n | (before ++ after).IsRun (fun c => p c = true) n before.byteSize}
      (byteSize (before.dropEndWhile p)) := by
  constructor
  · exact ⟨_, slice_takeEndWhile p before after, fun c hc => of_mem_takeEndWhile hc⟩
  · rintro n ⟨run, hslice, hrun⟩
    obtain ⟨past, rfl, rfl⟩ := slice_append_eq_ok_iff.mp hslice
    -- the whole run is left out, so what remains is a part of `past`
    obtain ⟨rest, hpast⟩ : past.dropEndWhile p <+: past := List.rdropWhile_prefix p past
    have hsize := congrArg byteSize hpast
    rw [byteSize_append] at hsize
    rw [dropEndWhile_append_of_forall hrun]
    omega

/-! ## The place that a caret stands for -/

/-- A caret stands for the last boundary of the text that does not lie behind it. -/
theorem isGreatest_byteSize_splitAtFloor (t : Text) (caret : Nat) :
    IsGreatest {m | t.isBoundary m = true ∧ m ≤ min caret t.byteSize}
      (byteSize (t.splitAtFloor caret).1) := by
  obtain ⟨hboundary, hle, hlast⟩ := t.splitAtFloor_spec caret
  refine ⟨⟨hboundary, Nat.le_min.mpr ⟨hle, le_byteSize_of_isBoundary hboundary⟩⟩, ?_⟩
  rintro m ⟨hm, hmin⟩
  exact hlast m (hmin.trans (Nat.min_le_left _ _)) hm

/-! ## Lines -/

/-- A character that a line contains: neither a line feed nor a carriage return. -/
def IsInline (c : Char) : Prop := c ≠ '\n' ∧ c ≠ '\r'

/-- A line feed or a carriage return stands at an offset. -/
def EndsLineAt (t : Text) (n : Nat) : Prop :=
  ∃ before c after, t = before ++ c :: after ∧ byteSize before = n ∧ (c = '\n' ∨ c = '\r')

/-- The stretch from `start` to `stop` is the line around `place`. -/
structure IsLineAround (t : Text) (place start stop : Nat) : Prop where
  start_le : start ≤ place
  le_stop : place ≤ stop
  isRun : t.IsRun IsInline start stop
  start_cases : start = 0 ∨ ∃ n, t.EndsLineAt n ∧ start = n + 1
  stop_cases : stop = t.byteSize ∨ t.EndsLineAt stop

theorem isLineEnd_iff {c : Char} : isLineEnd c = true ↔ c = '\n' ∨ c = '\r' := by
  rw [isLineEnd, Bool.or_eq_true, beq_iff_eq, beq_iff_eq]

theorem isInline_iff {c : Char} : IsInline c ↔ isLineEnd c = false := by
  rw [← Bool.not_eq_true, isLineEnd_iff, not_or, IsInline]

/-- A character that ends a line has one byte. -/
theorem utf8Size_of_isLineEnd {c : Char} (h : isLineEnd c = true) : c.utf8Size = 1 := by
  rcases isLineEnd_iff.mp h with rfl | rfl <;> rfl

theorem IsRun.not_endsLineAt {start stop n : Nat} (h : t.IsRun IsInline start stop)
    (hstart : start ≤ n) (hstop : n < stop) : ¬ t.EndsLineAt n := by
  rintro ⟨before, c, after, rfl, rfl, hc⟩
  obtain ⟨hfeed, hreturn⟩ := h.of_append_cons hstart hstop
  exact hc.elim hfeed hreturn

namespace IsLineAround

variable {place start stop : Nat} (h : t.IsLineAround place start stop)
include h

/-- No stretch of characters of a line that reaches the place begins before the line. -/
theorem start_le_of_isRun {first last : Nat} (hrun : t.IsRun IsInline first last)
    (hlast : place ≤ last) : start ≤ first := by
  have hplace := h.start_le
  rcases h.start_cases with hzero | ⟨n, hends, hn⟩
  · omega
  · -- otherwise the stretch would contain what stands in front of the line
    by_contra hlt
    exact hrun.not_endsLineAt (by omega) (by omega) hends

/-- No stretch of characters of a line that begins up to the place ends behind the line. -/
theorem le_stop_of_isRun {first last : Nat} (hrun : t.IsRun IsInline first last)
    (hfirst : first ≤ place) : last ≤ stop := by
  have hplace := h.le_stop
  rcases h.stop_cases with hall | hends
  · rw [hall]
    exact hrun.stop_le_byteSize
  · by_contra hlt
    exact hrun.not_endsLineAt (by omega) (by omega) hends

/-- There is only one line around a place. -/
theorem start_eq_and_stop_eq {start' stop' : Nat} (h' : t.IsLineAround place start' stop') :
    start = start' ∧ stop = stop' :=
  ⟨Nat.le_antisymm (h.start_le_of_isRun h'.isRun h'.le_stop)
      (h'.start_le_of_isRun h.isRun h.le_stop),
    Nat.le_antisymm (h'.le_stop_of_isRun h.isRun h.start_le)
      (h.le_stop_of_isRun h'.isRun h'.start_le)⟩

/-- A line is the line around each of its places. -/
theorem of_le_of_le {other : Nat} (hstart : start ≤ other) (hstop : other ≤ stop) :
    t.IsLineAround other start stop :=
  { h with start_le := hstart, le_stop := hstop }

end IsLineAround

/-- The search to the left ends at the beginning of the text or behind the end of a line. -/
theorem dropEndWhile_cases (before after : Text) :
    byteSize (before.dropEndWhile fun c => !isLineEnd c) = 0 ∨ ∃ n, (before ++ after).EndsLineAt n ∧
      byteSize (before.dropEndWhile fun c => !isLineEnd c) = n + 1 := by
  rcases List.eq_nil_or_concat (before.dropEndWhile fun c => !isLineEnd c) with
    hnil | ⟨front, c, hfront⟩
  · exact .inl (congrArg byteSize hnil)
  · rw [List.concat_eq_append] at hfront
    have hc : isLineEnd c = true := by
      simpa using not_of_mem_getLast?_dropEndWhile (t := before) (p := fun c => !isLineEnd c)
        (hfront ▸ List.getLast?_concat ..)
    have htext := dropEndWhile_append_takeEndWhile (fun c => !isLineEnd c) before
    rw [hfront, List.append_assoc, List.singleton_append] at htext
    refine .inr ⟨byteSize front, ⟨front, c, before.takeEndWhile (fun c => !isLineEnd c) ++ after,
      ?_, rfl, isLineEnd_iff.mp hc⟩, ?_⟩
    · rw [← List.cons_append, ← List.append_assoc, htext]
    · rw [hfront, byteSize_append, byteSize_cons, byteSize_nil, utf8Size_of_isLineEnd hc]

/-- The search to the right ends at the end of the text or in front of the end of a line. -/
theorem takeWhile_cases (before after : Text) :
    byteSize before + byteSize (after.takeWhile fun c => !isLineEnd c)
        = byteSize (before ++ after) ∨
      (before ++ after).EndsLineAt
        (byteSize before + byteSize (after.takeWhile fun c => !isLineEnd c)) := by
  have htext := List.takeWhile_append_dropWhile (p := fun c => !isLineEnd c) (l := after)
  have hhead := List.head?_dropWhile_not (fun c => !isLineEnd c) after
  cases hrest : after.dropWhile fun c => !isLineEnd c with
  | nil =>
    rw [hrest, List.append_nil] at htext
    rw [htext, byteSize_append]
    exact .inl rfl
  | cons c rest =>
    rw [hrest] at htext hhead
    have hc : isLineEnd c = true := by simpa using hhead
    refine .inr ⟨before ++ after.takeWhile (fun c => !isLineEnd c), c, rest, ?_,
      byteSize_append _ _, isLineEnd_iff.mp hc⟩
    rw [List.append_assoc, htext]

/-- The two searches pass over characters that a line contains. -/
theorem isRun_dropEndWhile_takeWhile (before after : Text) :
    (before ++ after).IsRun IsInline (byteSize (before.dropEndWhile fun c => !isLineEnd c))
      (byteSize before + byteSize (after.takeWhile fun c => !isLineEnd c)) := by
  have hbefore := dropEndWhile_append_takeEndWhile (fun c => !isLineEnd c) before
  have hafter := List.takeWhile_append_dropWhile (p := fun c => !isLineEnd c) (l := after)
  refine ⟨before.takeEndWhile (fun c => !isLineEnd c) ++ after.takeWhile (fun c => !isLineEnd c),
    slice_eq_ok_iff.mpr ⟨_, after.dropWhile fun c => !isLineEnd c, ?_, rfl, ?_⟩, fun c hc => ?_⟩
  · rw [← List.append_assoc, hbefore, List.append_assoc, hafter]
  · rw [← List.append_assoc, hbefore, byteSize_append]
  · rcases List.mem_append.mp hc with hc | hc
    · exact isInline_iff.mpr (by simpa using of_mem_takeEndWhile hc)
    · exact isInline_iff.mpr (by simpa using List.mem_takeWhile_imp hc)

/-- The two searches find the line around the place that the caret stands for. -/
theorem isLineAround_caretLine (t : Text) (caret : Nat) :
    t.IsLineAround (byteSize (t.splitAtFloor caret).1) (t.caretLineStart caret)
      (t.caretLineEnd caret) := by
  obtain ⟨-, -, hstart, hstop⟩ := t.caretLine_spec caret
  have ht := splitAtFloor_append t caret
  rw [caretLineStart] at hstart ⊢
  rw [caretLineEnd] at hstop ⊢
  generalize t.splitAtFloor caret = sides at ht hstart hstop ⊢
  obtain ⟨before, after⟩ := sides
  subst ht
  exact ⟨hstart, hstop, isRun_dropEndWhile_takeWhile before after, dropEndWhile_cases before after,
    takeWhile_cases before after⟩

/-- All offsets on a line have this line. -/
theorem caretLine_eq_of_le_of_le {caret other : Nat} (hstart : t.caretLineStart caret ≤ other)
    (hstop : other ≤ t.caretLineEnd caret) : t.caretLineStart other = t.caretLineStart caret ∧
      t.caretLineEnd other = t.caretLineEnd caret := by
  obtain ⟨-, hle, hlast⟩ := t.splitAtFloor_spec other
  -- rounding down does not leave the line, because the line begins at a boundary
  have hfirst := hlast _ hstart (t.caretLine_spec caret).1
  exact (isLineAround_caretLine t other).start_eq_and_stop_eq
    ((isLineAround_caretLine t caret).of_le_of_le hfirst (hle.trans hstop))

/-! ## Words -/

theorem isInline_of_isWordPart {c : Char} (h : isWordPart c = true) : IsInline c := by
  constructor
  · rintro rfl
    exact absurd h (by decide)
  · rintro rfl
    exact absurd h (by decide)

/-- The word in front of the place that a caret stands for is the longest run of word characters
that ends there, and it begins on the line. -/
theorem exists_isLeast_wordBefore (t : Text) (caret : Nat) :
    ∃ first, t.slice first (byteSize (t.splitAtFloor caret).1) = .ok (t.wordBefore caret) ∧
      IsLeast {n | t.IsRun (fun c => isWordPart c = true) n (byteSize (t.splitAtFloor caret).1)}
        first ∧
      t.caretLineStart caret ≤ first := by
  have hslice := slice_takeEndWhile isWordPart (t.splitAtFloor caret).1 (t.splitAtFloor caret).2
  have hleast := isLeast_dropEndWhile isWordPart (t.splitAtFloor caret).1 (t.splitAtFloor caret).2
  rw [splitAtFloor_append] at hslice hleast
  have hinline := hleast.1.mono fun c => isInline_of_isWordPart
  exact ⟨_, hslice, hleast,
    (isLineAround_caretLine t caret).start_le_of_isRun hinline (Nat.le_refl _)⟩

/-- **The line and the word at a caret**, for every text and every offset.  The caret stands for
the last place `o` between two characters that does not lie behind it.  From the start to the end
that are found goes the line around `o`: nothing in it ends a line, and on each side the text ends
or a line feed or a carriage return stands there.  Every offset on this line, one inside a
character included, has the same line.  The word is cut out in front of `o`; no run of word
characters that ends at `o` begins earlier, and it does not begin before the line. -/
theorem caretLine_wordBefore_spec (t : Text) (caret : Nat) :
    ∃ o, IsGreatest {m | t.isBoundary m = true ∧ m ≤ min caret t.byteSize} o ∧
      t.IsLineAround o (t.caretLineStart caret) (t.caretLineEnd caret) ∧
      (∀ other, t.caretLineStart caret ≤ other → other ≤ t.caretLineEnd caret →
        t.caretLineStart other = t.caretLineStart caret ∧
          t.caretLineEnd other = t.caretLineEnd caret) ∧
      ∃ first, t.slice first o = .ok (t.wordBefore caret) ∧
        IsLeast {n | t.IsRun (fun c => isWordPart c = true) n o} first ∧
        t.caretLineStart caret ≤ first :=
  ⟨_, isGreatest_byteSize_splitAtFloor t caret, isLineAround_caretLine t caret,
    fun _ => caretLine_eq_of_le_of_le, exists_isLeast_wordBefore t caret⟩

/-- A caret inside `ä` stands in front of it. -/
example :
    let t : Text := "a: b\r\nc: dä-e\n".toList
    t.caretLineStart 11 = 6 ∧ t.caretLineEnd 11 = 14 ∧ t.wordBefore 11 = ['d'] ∧
      t.wordBefore 14 = "dä-e".toList := by
  decide

end WorkflowLens.Text
