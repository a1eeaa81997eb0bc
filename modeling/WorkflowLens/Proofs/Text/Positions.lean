import Mathlib.Data.List.Basic
import WorkflowLens.Proofs.Text.Places
import WorkflowLens.Proofs.Text.Runs
import WorkflowLens.Text.Position

/-!
# Offsets and positions

A byte offset and a position name the same place in two ways, and each way has names that mean
nothing: an offset may lie inside a character, and a position may lie on no line or past the end
of its line.  The names that mean something belong to the splits of the text into complete lines, a
part of a line, and the rest.  The size of what stands before the rest is the offset, and the
number of complete lines and the length of the part are the position.  So both ways are read off
one split, and undo each other.

* `OpensLine`: a text of complete lines, after which a line begins.
* `positionAt_append`, `offsetAt?_append`: the two names of the place in a split.
* `exists_opensLine_append`, `lineFrom?_eq_none`: the complete lines before a line.
* `precedes_endPosition_append`: a longer text ends at a later position.
* `positionAt_offsetAt?_spec`: offsets and positions are inverse to each other, in order.
-/

namespace WorkflowLens

/-- Whether one position comes before another: on an earlier line, or earlier on the same line. -/
def Position.Precedes (p q : Position) : Prop :=
  p.line < q.line ∨ p.line = q.line ∧ p.column < q.column

namespace Text

/-- The lines of a text, without the line feeds between them. -/
def lines (t : Text) : List Text := t.splitOn '\n'

/-- A text of complete lines, after which a line begins. -/
def OpensLine (past : Text) : Prop := past = [] ∨ past.getLast? = some '\n'

/-- The position of the end of a text. -/
def endPosition (t : Text) : Position :=
  ⟨t.count '\n', (t.takeEndWhile fun c => c != '\n').length⟩

/-! ## Complete lines -/

theorem opensLine_cons_iff {c : Char} {past : Text} :
    OpensLine (c :: past) ↔ OpensLine past ∧ (past = [] → c = '\n') := by
  cases past with
  | nil => simp [OpensLine]
  | cons d past => simp [OpensLine, List.getLast?_cons_cons]

theorem OpensLine.count_ne_zero {past : Text} (h : OpensLine past) (hne : past ≠ []) :
    past.count '\n' ≠ 0 :=
  Nat.ne_of_gt (List.count_pos_iff.mpr (List.mem_of_getLast? (h.resolve_left hne)))

/-- What stands in front of the last run of a line are complete lines. -/
theorem opensLine_dropEndWhile (t : Text) : OpensLine (t.dropEndWhile fun c => c != '\n') := by
  cases hlast : (t.dropEndWhile fun c => c != '\n').getLast? with
  | none => exact .inl (List.getLast?_eq_none_iff.mp hlast)
  | some c =>
    have hc := not_of_mem_getLast?_dropEndWhile hlast
    exact .inr (by rw [hlast, bne_eq_false_iff_eq.mp hc])

theorem not_mem_takeEndWhile (t : Text) : '\n' ∉ t.takeEndWhile fun c => c != '\n' := by
  intro hmem
  have hne := of_mem_takeEndWhile hmem
  simp at hne

/-- Complete lines are followed by the rest of the lines. -/
theorem lineFrom?_append {past : Text} (h : OpensLine past) (rest : Text) :
    lineFrom? (past ++ rest) (past.count '\n') = some (past.byteSize, rest) := by
  induction past with
  | nil => cases rest <;> rfl
  | cons c past ih =>
    obtain ⟨hpast, hlast⟩ := opensLine_cons_iff.mp h
    have hrest := ih hpast
    by_cases hc : c = '\n'
    · rw [hc, List.count_cons_self, List.cons_append, lineFrom?, if_pos rfl, hrest, byteSize_cons,
        Nat.add_comm]
      rfl
    · -- the line of `c` ends in `past`
      obtain ⟨n, hn⟩ := Nat.exists_eq_succ_of_ne_zero (hpast.count_ne_zero (mt hlast hc))
      rw [List.count_cons_of_ne hc, hn, List.cons_append, lineFrom?, if_neg hc,
        ← Nat.succ_eq_add_one, ← hn, hrest, byteSize_cons, Nat.add_comm]
      rfl

/-- Every line of a text comes after complete lines. -/
theorem exists_opensLine_append {t : Text} {line : Nat} (h : line < t.lineCount) :
    ∃ past rest, t = past ++ rest ∧ OpensLine past ∧ past.count '\n' = line := by
  rw [lineCount, Nat.lt_succ_iff] at h
  induction t generalizing line with
  | nil => exact ⟨[], [], rfl, .inl rfl, (Nat.le_zero.mp h).symm⟩
  | cons c t ih =>
    cases line with
    | zero => exact ⟨[], c :: t, rfl, .inl rfl, rfl⟩
    | succ line =>
      by_cases hc : c = '\n'
      · rw [hc, List.count_cons_self, Nat.add_le_add_iff_right] at h
        obtain ⟨past, rest, rfl, hpast, hcount⟩ := ih h
        exact ⟨c :: past, rest, rfl, opensLine_cons_iff.mpr ⟨hpast, fun _ => hc⟩,
          by rw [hc, List.count_cons_self, hcount]⟩
      · rw [List.count_cons_of_ne hc] at h
        obtain ⟨past, rest, rfl, hpast, hcount⟩ := ih h
        refine ⟨c :: past, rest, rfl, opensLine_cons_iff.mpr ⟨hpast, ?_⟩,
          by rw [List.count_cons_of_ne hc, hcount]⟩
        rintro rfl
        cases hcount

theorem lineFrom?_eq_none {t : Text} {line : Nat} (h : t.lineCount ≤ line) :
    lineFrom? t line = none := by
  rw [lineCount, Nat.succ_le_iff] at h
  induction t generalizing line with
  | nil =>
    obtain ⟨n, rfl⟩ := Nat.exists_eq_succ_of_ne_zero (Nat.ne_of_gt h)
    rfl
  | cons c t ih =>
    obtain ⟨n, rfl⟩ := Nat.exists_eq_succ_of_ne_zero (Nat.ne_zero_of_lt h)
    rw [Nat.succ_eq_add_one, lineFrom?]
    by_cases hc : c = '\n'
    · rw [hc, List.count_cons_self] at h
      rw [if_pos hc, ih (Nat.lt_of_succ_lt_succ h)]
      rfl
    · rw [List.count_cons_of_ne hc] at h
      rw [if_neg hc, ih h]
      rfl

/-! ## The list of lines -/

theorem lines_cons (c : Char) (t : Text) :
    lines (c :: t) = if c = '\n' then [] :: lines t else (lines t).modifyHead (c :: ·) := by
  rw [lines, List.splitOn_eq_splitOnP, List.splitOnP_cons_eq_if_modifyHead]
  simp only [beq_iff_eq]
  rfl

theorem length_lines (t : Text) : t.lines.length = t.lineCount := by
  induction t with
  | nil => rfl
  | cons c t ih =>
    rw [lineCount] at ih
    rw [lines_cons, lineCount]
    split
    · next hc => rw [hc, List.length_cons, List.count_cons_self, ih]
    · next hc => rw [List.length_modifyHead, List.count_cons_of_ne hc, ih]

/-- The first line goes up to the first line feed. -/
theorem getElem?_lines_zero (t : Text) : t.lines[0]? = some (t.takeWhile fun c => c != '\n') := by
  induction t with
  | nil => rfl
  | cons c t ih =>
    rw [lines_cons]
    by_cases hc : c = '\n'
    · simp [hc]
    · rw [if_neg hc, List.getElem?_modifyHead, if_pos rfl, ih,
        List.takeWhile_cons_of_pos (by simpa using hc)]
      rfl

/-- After complete lines comes the first line of the rest. -/
theorem getElem?_lines_append {past : Text} (h : OpensLine past) (rest : Text) :
    (past ++ rest).lines[past.count '\n']? = some (rest.takeWhile fun c => c != '\n') := by
  induction past with
  | nil => exact getElem?_lines_zero rest
  | cons c past ih =>
    obtain ⟨hpast, hlast⟩ := opensLine_cons_iff.mp h
    rw [List.cons_append, lines_cons]
    by_cases hc : c = '\n'
    · rw [if_pos hc, hc, List.count_cons_self, List.getElem?_cons_succ, ih hpast]
    · rw [if_neg hc, List.count_cons_of_ne hc, List.getElem?_modifyHead,
        if_neg (hpast.count_ne_zero (mt hlast hc)), ih hpast]

/-! ## The place in a split -/

/-- A part of a line after complete lines ends at its own length. -/
theorem endPosition_append {past line : Text} (hpast : OpensLine past) (hline : '\n' ∉ line) :
    endPosition (past ++ line) = ⟨past.count '\n', line.length⟩ := by
  have hall : ∀ c ∈ line, (c != '\n') = true :=
    fun c hc => bne_iff_ne.mpr fun heq => hline (heq ▸ hc)
  have hrun : past.takeEndWhile (fun c => c != '\n') = [] := by
    rcases hpast with rfl | hend
    · rfl
    · rw [takeEndWhile, ← List.isEmpty_iff, List.isEmpty_reverse, List.isEmpty_iff]
      rw [List.getLast?_eq_head?_reverse] at hend
      obtain ⟨rest, hrest⟩ := List.head?_eq_some_iff.mp hend
      rw [hrest]
      rfl
  rw [endPosition, takeEndWhile_append_of_forall hall, hrun, List.count_append,
    List.count_eq_zero_of_not_mem hline]
  rfl

theorem positionAt_append (before after : Text) :
    (before ++ after).positionAt before.byteSize = .ok (endPosition before) := by
  rw [positionAt, byteSize_append, Nat.min_eq_left (Nat.le_add_right _ _), cut_append]
  rfl

/-- The offset of a position is counted from the beginning of its line. -/
theorem offsetAt?_eq {past : Text} (hpast : OpensLine past) (rest : Text) (column : Nat) :
    (past ++ rest).offsetAt? ⟨past.count '\n', column⟩
      = some (past.byteSize + byteSize ((rest.takeWhile fun c => c != '\n').take column)) := by
  rw [offsetAt?, lineFrom?_append hpast]
  rfl

/-- A part of a line has its own size and length. -/
theorem offsetAt?_append {past line : Text} (hpast : OpensLine past) (hline : '\n' ∉ line)
    (after : Text) :
    (past ++ line ++ after).offsetAt? ⟨past.count '\n', line.length⟩
      = some (byteSize (past ++ line)) := by
  have hall : ∀ c ∈ line, (c != '\n') = true :=
    fun c hc => bne_iff_ne.mpr fun heq => hline (heq ▸ hc)
  rw [List.append_assoc, offsetAt?_eq hpast, List.takeWhile_append_of_pos hall, List.take_left,
    byteSize_append]

/-- The two names of a place are read off one split. -/
theorem offsetAt?_endPosition (before after : Text) :
    (before ++ after).offsetAt? (endPosition before) = some before.byteSize := by
  have hbefore := dropEndWhile_append_takeEndWhile (fun c => c != '\n') before
  have hpast := opensLine_dropEndWhile before
  have hline := not_mem_takeEndWhile before
  have hoffset := offsetAt?_append hpast hline after
  rwa [← endPosition_append hpast hline, hbefore] at hoffset

/-- A longer text ends at a later position. -/
theorem precedes_endPosition_append (before : Text) {more : Text} (hmore : more ≠ []) :
    (endPosition before).Precedes (endPosition (before ++ more)) := by
  by_cases hfeed : '\n' ∈ more
  · refine .inl ?_
    have hpos : 0 < more.count '\n' := List.count_pos_iff.mpr hfeed
    simp only [endPosition, List.count_append]
    omega
  · refine .inr ?_
    have hall : ∀ c ∈ more, (c != '\n') = true :=
      fun c hc => bne_iff_ne.mpr fun heq => hfeed (heq ▸ hc)
    have hpos := List.length_pos_iff.mpr hmore
    simp only [endPosition, List.count_append, List.count_eq_zero_of_not_mem hfeed,
      takeEndWhile_append_of_forall hall, List.length_append]
    omega

/-- Of two boundaries of a text the later one stands behind more of it. -/
theorem exists_append_of_boundary_lt {t : Text} {m n : Nat} (hm : t.isBoundary m = true)
    (hn : t.isBoundary n = true) (hlt : m < n) :
    ∃ before more after, t = before ++ (more ++ after) ∧ more ≠ [] ∧ before.byteSize = m ∧
      byteSize (before ++ more) = n := by
  obtain ⟨before, after, rfl, rfl⟩ := isBoundary_iff.mp hm
  obtain ⟨before', after', heq, rfl⟩ := isBoundary_iff.mp hn
  obtain ⟨more, rfl, rfl⟩ := exists_append_of_byteSize_le heq (Nat.le_of_lt hlt)
  refine ⟨before, more, after', rfl, ?_, rfl, rfl⟩
  rintro rfl
  rw [List.append_nil] at hlt
  exact absurd hlt (Nat.lt_irrefl _)

/-! ## Both ways -/

/-- The line of a position and the complete lines before it. -/
theorem exists_split_of_line {t : Text} {n : Nat} {line : Text} (h : t.lines[n]? = some line) :
    ∃ past after, t = past ++ (line ++ after) ∧ OpensLine past ∧ past.count '\n' = n ∧
      '\n' ∉ line ∧ (line ++ after).takeWhile (fun c => c != '\n') = line := by
  have hlt : n < t.lineCount := by
    rw [← length_lines]
    exact (List.getElem?_eq_some_iff.mp h).1
  obtain ⟨past, rest, rfl, hpast, rfl⟩ := exists_opensLine_append hlt
  rw [getElem?_lines_append hpast, Option.some.injEq] at h
  have hrest := List.takeWhile_append_dropWhile (p := fun c => c != '\n') (l := rest)
  rw [h] at hrest
  refine ⟨past, rest.dropWhile fun c => c != '\n', by rw [hrest], hpast, rfl, ?_, by rw [hrest, h]⟩
  intro hmem
  have hne := List.mem_takeWhile_imp (h ▸ hmem)
  simp at hne

theorem offsetAt?_eq_none_iff {t : Text} {p : Position} :
    t.offsetAt? p = none ↔ t.lineCount ≤ p.line := by
  rw [offsetAt?, Option.map_eq_none_iff]
  constructor
  · intro hnone
    by_contra hlt
    obtain ⟨past, rest, rfl, hpast, hline⟩ := exists_opensLine_append (Nat.lt_of_not_le hlt)
    rw [← hline, lineFrom?_append hpast] at hnone
    cases hnone
  · exact lineFrom?_eq_none

/-- **Offsets and positions are inverse to each other, in order.**  The boundaries of a text have
positions, later ones later positions, and the offsets of these are the boundaries.  The positions
on the lines, up to their ends, have boundaries for offsets, and the positions of these are the
positions again.  Past its end a line has the offset of the end, and past the last line there are
no offsets. -/
theorem positionAt_offsetAt?_spec (t : Text) :
    (∀ o, t.isBoundary o = true →
      ∃ p, t.positionAt o = .ok p ∧ t.offsetAt? p = some o) ∧
    (∀ o o' p p', t.isBoundary o = true → t.isBoundary o' = true → o < o' →
      t.positionAt o = .ok p → t.positionAt o' = .ok p' → p.Precedes p') ∧
    t.lines.length = t.lineCount ∧
    (∀ p line, t.lines[p.line]? = some line → p.column ≤ line.length →
      ∃ o, t.offsetAt? p = some o ∧ t.isBoundary o = true ∧ t.positionAt o = .ok p) ∧
    (∀ p line, t.lines[p.line]? = some line → line.length ≤ p.column →
      t.offsetAt? p = t.offsetAt? ⟨p.line, line.length⟩) ∧
    ∀ p, t.offsetAt? p = none ↔ t.lineCount ≤ p.line := by
  refine ⟨?_, ?_, length_lines t, ?_, ?_, fun p => offsetAt?_eq_none_iff⟩
  · intro o ho
    obtain ⟨before, after, rfl, rfl⟩ := isBoundary_iff.mp ho
    exact ⟨_, positionAt_append before after, offsetAt?_endPosition before after⟩
  · intro o o' p p' ho ho' hlt hp hp'
    obtain ⟨before, more, after, rfl, hmore, rfl, rfl⟩ := exists_append_of_boundary_lt ho ho' hlt
    rw [positionAt_append, Except.ok.injEq] at hp
    rw [← List.append_assoc, positionAt_append, Except.ok.injEq] at hp'
    rw [← hp, ← hp']
    exact precedes_endPosition_append before hmore
  · rintro ⟨n, column⟩ line hline hcolumn
    obtain ⟨past, after, rfl, hpast, rfl, hfeed, -⟩ := exists_split_of_line hline
    -- the part of the line up to the column
    have hpart : '\n' ∉ line.take column := fun hmem => hfeed (List.mem_of_mem_take hmem)
    have hlength : (line.take column).length = column := List.length_take_of_le hcolumn
    have hsplit : past ++ (line ++ after)
        = past ++ line.take column ++ (line.drop column ++ after) := by
      rw [List.append_assoc, ← List.append_assoc (line.take column), List.take_append_drop]
    have hoffset := offsetAt?_append hpast hpart (line.drop column ++ after)
    have hposition := positionAt_append (past ++ line.take column) (line.drop column ++ after)
    rw [endPosition_append hpast hpart, hlength] at hposition
    rw [hlength] at hoffset
    rw [hsplit]
    exact ⟨_, hoffset, isBoundary_append _ _, hposition⟩
  · rintro ⟨n, column⟩ line hline hcolumn
    obtain ⟨past, after, rfl, hpast, rfl, hfeed, htake⟩ := exists_split_of_line hline
    rw [offsetAt?_eq hpast, offsetAt?_eq hpast, htake, List.take_of_length_le hcolumn,
      List.take_length]

end Text

end WorkflowLens
