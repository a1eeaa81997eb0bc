import Mathlib.Data.List.DropRight
import Mathlib.Data.List.TakeWhile
import WorkflowLens.Text.Blank

/-!
# Runs at the end of a text

The last line of a text, a word before a caret, and the blanks at an end are all the longest run
of certain characters at the end of a text.  What is put behind a text goes into the run as far as
it consists of such characters, and else the run begins anew.

* `takeEndWhile_append_of_forall`, `takeEndWhile_append_of_exists`: the run of two texts.
* `mem_of_mem_takeEndWhile`, `of_mem_takeEndWhile`, `getLast?_takeEndWhile`: the characters of a run
  stand in the text and are of its kind, and the last one is the last one of the text.
* `rdropWhile_cons`, `dropEndWhile_append_of_forall`, `not_of_mem_getLast?_dropEndWhile`: what is
  left without a run at the end.
* `takeWhile_append_of_head?`, `dropWhile_append_of_head?`: a run at the beginning;
  `takeWhile_append_cons`, `dropWhile_append_cons` with the character that ends it.
* `trim_append_of_forall`: blanks at the end do not count.
* `trim_eq_self`, `trim_eq_self_iff`: a text that neither begins nor ends with a blank is not
  trimmed.
-/

namespace WorkflowLens.Text

theorem takeEndWhile_append_of_forall {p : Char → Bool} {t : Text} (h : ∀ c ∈ t, p c = true)
    (s : Text) : takeEndWhile p (s ++ t) = takeEndWhile p s ++ t := by
  rw [takeEndWhile, List.reverse_append,
    List.takeWhile_append_of_pos fun c hc => h c (List.mem_reverse.mp hc), List.reverse_append,
    List.reverse_reverse, takeEndWhile]

theorem takeEndWhile_append_of_exists {p : Char → Bool} {t : Text} (h : ∃ c ∈ t, p c = false)
    (s : Text) : takeEndWhile p (s ++ t) = takeEndWhile p t := by
  have hshort : (t.reverse.takeWhile p).length ≠ t.reverse.length := by
    intro hall
    have hself := (List.takeWhile_prefix p (l := t.reverse)).eq_of_length hall
    obtain ⟨c, hc, hp⟩ := h
    rw [← List.mem_reverse, ← hself] at hc
    rw [List.mem_takeWhile_imp hc] at hp
    cases hp
  rw [takeEndWhile, List.reverse_append, List.takeWhile_append, if_neg hshort, takeEndWhile]

theorem mem_of_mem_takeEndWhile {p : Char → Bool} {t : Text} {c : Char}
    (h : c ∈ takeEndWhile p t) : c ∈ t :=
  List.mem_reverse.mp ((List.takeWhile_prefix p).subset (List.mem_reverse.mp h))

theorem of_mem_takeEndWhile {p : Char → Bool} {t : Text} {c : Char} (h : c ∈ takeEndWhile p t) :
    p c = true :=
  List.mem_takeWhile_imp (List.mem_reverse.mp h)

theorem getLast?_cons_or (c : Char) (t : Text) (before : Option Char) :
    (c :: t).getLast?.or before = t.getLast?.or (some c) := by
  rw [List.getLast?_cons]
  cases t.getLast? <;> rfl

theorem getLast?_takeEndWhile (p : Char → Bool) (t : Text) :
    (takeEndWhile p t).getLast? = t.getLast?.filter p := by
  rw [takeEndWhile, List.getLast?_reverse, List.head?_takeWhile, List.getLast?_eq_head?_reverse]

/-! ## Without the run -/

/-- The run at the end is the run at the end of the rest, unless that is all of the rest. -/
theorem rdropWhile_cons {α : Type} (p : α → Bool) (a : α) (l : List α) :
    (a :: l).rdropWhile p
      = if l.rdropWhile p = [] ∧ p a = true then [] else a :: l.rdropWhile p := by
  unfold List.rdropWhile
  rw [List.reverse_cons, List.dropWhile_append]
  cases hrest : l.reverse.dropWhile p with
  | nil => by_cases ha : p a = true <;> simp [ha]
  | cons b rest => simp

theorem dropEndWhile_eq_rdropWhile (p : Char → Bool) (t : Text) :
    dropEndWhile p t = t.rdropWhile p := rfl

theorem dropEndWhile_append_of_forall {p : Char → Bool} {t : Text} (h : ∀ c ∈ t, p c = true)
    (s : Text) : dropEndWhile p (s ++ t) = dropEndWhile p s := by
  rw [dropEndWhile, List.reverse_append,
    List.dropWhile_append_of_pos fun c hc => h c (List.mem_reverse.mp hc), dropEndWhile]

/-- A text that does not end with a character of the run is left as it is. -/
theorem dropEndWhile_eq_self_iff {p : Char → Bool} {t : Text} :
    dropEndWhile p t = t ↔ ∀ c ∈ t.getLast?, p c = false := by
  rw [dropEndWhile_eq_rdropWhile, List.rdropWhile_eq_self_iff]
  constructor
  · intro h c hc
    obtain ⟨hne, rfl⟩ := List.mem_getLast?_eq_getLast hc
    simpa using h hne
  · intro h hne
    rw [h _ (List.getLast?_eq_some_getLast hne)]
    exact Bool.false_ne_true

/-- What is left without the run does not end with a character of the run. -/
theorem not_of_mem_getLast?_dropEndWhile {p : Char → Bool} {t : Text} {c : Char}
    (h : c ∈ (dropEndWhile p t).getLast?) : p c = false :=
  dropEndWhile_eq_self_iff.mp (List.rdropWhile_idempotent p t) c h

theorem dropWhile_eq_self_of_head? {p : Char → Bool} {t : Text} (h : ∀ c ∈ t.head?, p c = false) :
    t.dropWhile p = t := by
  cases t with
  | nil => rfl
  | cons c t =>
    exact List.dropWhile_cons_of_neg (ne_true_of_eq_false (h c rfl))

/-- A run ends in front of the first character that does not belong to it. -/
theorem takeWhile_append_of_head? {p : Char → Bool} {run rest : Text} (hrun : ∀ c ∈ run, p c = true)
    (hrest : ∀ c ∈ rest.head?, p c = false) : (run ++ rest).takeWhile p = run := by
  rw [List.takeWhile_append_of_pos hrun]
  cases rest with
  | nil => exact List.append_nil run
  | cons c rest =>
    rw [List.takeWhile_cons_of_neg (ne_true_of_eq_false (hrest c rfl)), List.append_nil]

theorem dropWhile_append_of_head? {p : Char → Bool} {run rest : Text} (hrun : ∀ c ∈ run, p c = true)
    (hrest : ∀ c ∈ rest.head?, p c = false) : (run ++ rest).dropWhile p = rest := by
  rw [List.dropWhile_append_of_pos hrun, dropWhile_eq_self_of_head? hrest]

theorem takeWhile_append_cons {p : Char → Bool} {run : Text} (hrun : ∀ c ∈ run, p c = true)
    {c : Char} (hc : p c = false) (rest : Text) : (run ++ c :: rest).takeWhile p = run :=
  takeWhile_append_of_head? hrun (by rintro d ⟨⟩; exact hc)

theorem dropWhile_append_cons {p : Char → Bool} {run : Text} (hrun : ∀ c ∈ run, p c = true)
    {c : Char} (hc : p c = false) (rest : Text) : (run ++ c :: rest).dropWhile p = c :: rest :=
  dropWhile_append_of_head? hrun (by rintro d ⟨⟩; exact hc)

/-- A text that neither begins nor ends with a blank is not trimmed. -/
theorem trim_eq_self {t : Text} (hhead : ∀ c ∈ t.head?, isBlank c = false)
    (hlast : ∀ c ∈ t.getLast?, isBlank c = false) : trim t = t := by
  rw [trim, trimStart, dropWhile_eq_self_of_head? hhead, trimEnd,
    dropEndWhile_eq_self_iff.mpr hlast]

/-- Blanks behind a text are trimmed. -/
theorem trim_append_of_forall {blanks : Text} (h : ∀ c ∈ blanks, isBlank c = true) (t : Text) :
    trim (t ++ blanks) = trim t := by
  rw [trim, trim, trimStart, trimStart, List.dropWhile_append]
  split
  · next hall =>
    rw [List.isEmpty_iff.mp hall, List.dropWhile_eq_nil_iff.mpr h]
  · rw [trimEnd, trimEnd, dropEndWhile_append_of_forall h]

theorem mem_of_mem_trim {t : Text} {c : Char} (h : c ∈ trim t) : c ∈ t :=
  (List.dropWhile_suffix isBlank).subset ((List.rdropWhile_prefix isBlank _).subset h)

theorem length_trim_le (t : Text) : (trim t).length ≤ t.length :=
  (List.rdropWhile_prefix isBlank _).length_le.trans (List.dropWhile_suffix isBlank).length_le

/-- A text that is not trimmed neither begins nor ends with a blank. -/
theorem trim_eq_self_iff {t : Text} : trim t = t ↔
    (∀ c ∈ t.head?, isBlank c = false) ∧ ∀ c ∈ t.getLast?, isBlank c = false := by
  refine ⟨fun h => ?_, fun h => trim_eq_self h.1 h.2⟩
  have hstart : trimStart t = t := by
    have hprefix : trim t <+: trimStart t := List.rdropWhile_prefix isBlank _
    have hsuffix : trimStart t <:+ t := List.dropWhile_suffix _
    have hle := hprefix.length_le
    rw [h] at hle
    exact hsuffix.eq_of_length_le hle
  refine ⟨fun c hc => ?_, ?_⟩
  · have hhead := List.head?_dropWhile_not isBlank t
    rw [← trimStart, hstart, hc] at hhead
    simpa using hhead
  · rw [trim, hstart] at h
    exact dropEndWhile_eq_self_iff.mp h

end WorkflowLens.Text
