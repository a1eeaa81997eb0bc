import Mathlib.Data.List.TakeWhile
import WorkflowLens.Proofs.Text.Places
import WorkflowLens.Text.Line

/-!
# The part of a line before a caret

* `lineBefore`: the text between the beginning of the caret's line and the caret.
* `exists_lineBefore_split`: at a boundary it stands right before the caret, and the line starts
  where it begins.
* `slice_lineBefore`: it is what is cut out of the text between these two offsets, and
  `slice_eq_ok_iff`: what is cut out of a text between any two offsets.
-/

namespace WorkflowLens.Text

/-- The part of the caret's line before the caret. -/
def lineBefore (t : Text) (caret : Nat) : Text :=
  takeEndWhile (fun c => !isLineEnd c) (t.splitAtFloor caret).1

/-- At a boundary nothing is rounded down. -/
theorem splitAtFloor_byteSize (before after : Text) :
    splitAtFloor (before ++ after) before.byteSize = (before, after) := by
  induction before with
  | nil =>
    cases after with
    | nil => rfl
    | cons c after =>
      have hpos := c.utf8Size_pos
      rw [List.nil_append, byteSize_nil, splitAtFloor, if_neg (by omega)]
  | cons c before ih =>
    rw [List.cons_append, byteSize_cons, splitAtFloor, if_pos (by omega), Nat.add_sub_cancel_left,
      ih]

/-- Rounding down gives the last boundary at or before an offset. -/
theorem splitAtFloor_spec (t : Text) (n : Nat) :
    t.isBoundary (byteSize (t.splitAtFloor n).1) = true ∧ byteSize (t.splitAtFloor n).1 ≤ n ∧
      ∀ m ≤ n, t.isBoundary m = true → m ≤ byteSize (t.splitAtFloor n).1 := by
  refine ⟨isBoundary_iff.mpr ⟨_, _, (splitAtFloor_append t n).symm, rfl⟩, ?_⟩
  induction t generalizing n with
  | nil =>
    refine ⟨Nat.zero_le n, fun m _ hm => le_byteSize_of_isBoundary hm⟩
  | cons c t ih =>
    rw [splitAtFloor]
    split
    · next hfits =>
      obtain ⟨hle, hlast⟩ := ih (n - c.utf8Size)
      rw [byteSize_cons]
      refine ⟨by omega, fun m hmn hm => ?_⟩
      obtain ⟨u, v, huv, rfl⟩ := isBoundary_iff.mp hm
      cases u with
      | nil => exact Nat.zero_le _
      | cons d u =>
        rw [List.cons_append, List.cons.injEq] at huv
        obtain ⟨rfl, rfl⟩ := huv
        rw [byteSize_cons] at hmn ⊢
        have hinside := hlast (byteSize u) (by omega) (isBoundary_append u v)
        omega
    · next hover =>
      refine ⟨Nat.zero_le n, fun m hmn hm => ?_⟩
      obtain ⟨u, v, huv, rfl⟩ := isBoundary_iff.mp hm
      cases u with
      | nil => exact Nat.le_refl 0
      | cons d u =>
        rw [List.cons_append, List.cons.injEq] at huv
        rw [byteSize_cons, ← huv.1] at hmn
        omega

/-- The caret's line starts and ends between two characters, and the rounded caret is on it. -/
theorem caretLine_spec (t : Text) (caret : Nat) :
    t.isBoundary (t.caretLineStart caret) = true ∧ t.isBoundary (t.caretLineEnd caret) = true ∧
      t.caretLineStart caret ≤ byteSize (t.splitAtFloor caret).1 ∧
      byteSize (t.splitAtFloor caret).1 ≤ t.caretLineEnd caret := by
  have hsplit := splitAtFloor_append t caret
  rw [caretLineStart, caretLineEnd]
  generalize t.splitAtFloor caret = sides at hsplit ⊢
  obtain ⟨before, after⟩ := sides
  have hbefore := dropEndWhile_append_takeEndWhile (fun c => !isLineEnd c) before
  have hafter := List.takeWhile_append_dropWhile (p := fun c => !isLineEnd c) (l := after)
  refine ⟨isBoundary_iff.mpr ⟨_, takeEndWhile (fun c => !isLineEnd c) before ++ after, ?_, rfl⟩,
    isBoundary_iff.mpr ⟨before ++ after.takeWhile (fun c => !isLineEnd c),
      after.dropWhile (fun c => !isLineEnd c), ?_, byteSize_append _ _⟩, ?_, Nat.le_add_right _ _⟩
  · rw [← List.append_assoc, hbefore, hsplit]
  · rw [List.append_assoc, hafter, hsplit]
  · have hle := congrArg byteSize hbefore
    rw [byteSize_append] at hle
    dsimp only
    omega

theorem not_isLineEnd_of_mem_lineBefore {t : Text} {caret : Nat} {c : Char}
    (hc : c ∈ t.lineBefore caret) : isLineEnd c = false := by
  have hmem := List.mem_takeWhile_imp (List.mem_reverse.mp hc)
  simpa using hmem

/-- At a boundary the part of the line stands right before the caret. -/
theorem exists_lineBefore_split {t : Text} {caret : Nat} (h : t.isBoundary caret = true) :
    ∃ lines after, t = lines ++ t.lineBefore caret ++ after ∧
      lines.byteSize = t.caretLineStart caret ∧
      byteSize (lines ++ t.lineBefore caret) = caret := by
  obtain ⟨before, after, rfl, rfl⟩ := isBoundary_iff.mp h
  have hsplit := dropEndWhile_append_takeEndWhile (fun c => !isLineEnd c) before
  refine ⟨dropEndWhile (fun c => !isLineEnd c) before, after, ?_, ?_, ?_⟩
  · rw [lineBefore, splitAtFloor_byteSize, hsplit]
  · rw [caretLineStart, splitAtFloor_byteSize]
  · rw [lineBefore, splitAtFloor_byteSize, hsplit]

/-- A piece between two others is cut out at the sizes of what comes before its ends. -/
theorem slice_append (before piece after : Text) :
    slice (before ++ piece ++ after) before.byteSize (byteSize (before ++ piece)) = .ok piece := by
  rw [slice, cut_append]
  simp only [bind, Except.bind, cut_append]
  rfl

/-- A piece that is cut out stands between its offsets. -/
theorem slice_eq_ok_iff {t s : Text} {start stop : Nat} : t.slice start stop = .ok s ↔
    ∃ before after, t = before ++ s ++ after ∧ before.byteSize = start ∧
      byteSize (before ++ s) = stop := by
  constructor
  · intro h
    rw [slice] at h
    cases hcut : t.cut stop with
    | error fault => simp [hcut, bind, Except.bind] at h
    | ok sides =>
      obtain ⟨front, after⟩ := sides
      cases hinner : cut front start with
      | error fault => simp [hcut, hinner, bind, Except.bind] at h
      | ok inner =>
        obtain ⟨before, piece⟩ := inner
        simp only [hcut, hinner, bind, Except.bind, pure, Except.pure, Except.ok.injEq] at h
        subst h
        obtain ⟨rfl, hstop⟩ := cut_sound hcut
        obtain ⟨rfl, hstart⟩ := cut_sound hinner
        exact ⟨before, after, rfl, hstart, hstop⟩
  · rintro ⟨before, after, rfl, rfl, rfl⟩
    exact slice_append before s after

theorem slice_lineBefore {t : Text} {caret : Nat} (h : t.isBoundary caret = true) :
    t.slice (t.caretLineStart caret) caret = .ok (t.lineBefore caret) := by
  obtain ⟨lines, after, ht, hstart, hcaret⟩ := exists_lineBefore_split h
  have hslice := slice_append lines (t.lineBefore caret) after
  rw [← ht, hstart, hcaret] at hslice
  exact hslice

end WorkflowLens.Text
