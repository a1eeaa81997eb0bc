import WorkflowLens.Proofs.Text.Runs

/-!
# Pieces of a text

A separator cuts a text into pieces, of which there is one more than there are separators.  Nothing
is lost by this, and no piece contains the separator, so the pieces say everything about a text in
which several fields stand with separators between them: a field is a piece exactly if it does not
contain the separator, and otherwise several pieces.

* `not_mem_of_mem_splitOn`: no piece contains the separator.
* `splitOn_inj`: texts with the same pieces are the same.
* `append_pair_isPrefix_splitOn_iff`: two fields are pieces of their own exactly if the separator
  does not stand in them.
* `splitOn_map`: several separators made one.
* `words`: the pieces of a text that is not empty, with `dropWhile_splitOn` and `rdropWhile_words`
  for separators at its ends.
-/

namespace WorkflowLens.Text

variable {x : Char}

theorem splitOn_cons_of_ne {c : Char} (h : c ≠ x) (t : Text) :
    (c :: t).splitOn x = (t.splitOn x).modifyHead (c :: ·) := by
  rw [List.splitOn_cons_eq_if_modifyHead, if_neg (by simpa using h)]

theorem not_mem_of_mem_splitOn {t piece : Text} (h : piece ∈ t.splitOn x) : x ∉ piece := by
  induction t generalizing piece with
  | nil =>
    rw [List.splitOn_nil, List.mem_singleton] at h
    rw [h]
    exact List.not_mem_nil
  | cons c t ih =>
    by_cases hc : c = x
    · rw [hc, ← List.nil_append (x :: t), List.splitOn_append_cons_self, List.splitOn_nil,
        List.singleton_append, List.mem_cons] at h
      rcases h with rfl | h
      · exact List.not_mem_nil
      · exact ih h
    · rw [splitOn_cons_of_ne hc] at h
      obtain ⟨first, others, hpieces⟩ := List.exists_cons_of_ne_nil (List.splitOn_ne_nil x t)
      rw [hpieces, List.modifyHead_cons, List.mem_cons] at h
      rcases h with rfl | h
      · have hfirst : x ∉ first := ih (by rw [hpieces]; exact List.mem_cons_self ..)
        rw [List.mem_cons, not_or]
        exact ⟨Ne.symm hc, hfirst⟩
      · exact ih (by rw [hpieces]; exact List.mem_cons_of_mem _ h)

/-- The pieces say everything about a text. -/
theorem splitOn_inj {s t : Text} : s.splitOn x = t.splitOn x ↔ s = t := by
  refine ⟨fun h => ?_, fun h => h ▸ rfl⟩
  calc s = [x].intercalate (s.splitOn x) := (List.intercalate_splitOn x).symm
    _ = [x].intercalate (t.splitOn x) := by rw [h]
    _ = t := List.intercalate_splitOn x

/-- Two fields in the middle of a text are pieces of their own exactly if the separator stands in
neither of them. -/
theorem append_pair_isPrefix_splitOn_iff (front first second : Text) {rest : Text}
    (hrest : ∀ c ∈ rest.head?, c = x) :
    front.splitOn x ++ [first, second]
        <+: (front ++ x :: (first ++ x :: (second ++ rest))).splitOn x
      ↔ x ∉ first ∧ x ∉ second := by
  rw [List.splitOn_append_cons_self, List.prefix_append_right_inj]
  constructor
  · intro h
    have hpiece : ∀ piece ∈ [first, second], x ∉ piece := fun piece hmem =>
      not_mem_of_mem_splitOn (h.subset hmem)
    exact ⟨hpiece _ (by simp), hpiece _ (by simp)⟩
  · rintro ⟨hfirst, hsecond⟩
    rw [List.splitOn_append_cons_self_of_not_mem hfirst]
    cases rest with
    | nil =>
      exact ⟨[], by rw [List.append_nil, List.append_nil, List.splitOn_eq_singleton hsecond]⟩
    | cons c rest =>
      rw [hrest c rfl, List.splitOn_append_cons_self_of_not_mem hsecond]
      exact ⟨_, rfl⟩

/-- Characters that are all made the separator cut a text as the separator does. -/
theorem splitOn_map {f : Char → Char} (hf : ∀ c, f c ≠ x → f c = c) (t : Text) :
    (t.map f).splitOn x = t.splitOnP fun c => f c == x := by
  induction t with
  | nil => rw [List.map_nil, List.splitOn_nil, List.splitOnP_nil]
  | cons c t ih =>
    rw [List.map_cons, List.splitOn_cons_eq_if_modifyHead, List.splitOnP_cons_eq_if_modifyHead, ih]
    by_cases hc : f c = x
    · simp [hc]
    · simp [hf c hc]

/-! ## Separators at the ends -/

/-- The pieces of a text, of which there are none if it is empty. -/
def words (x : Char) (t : Text) : List Text := if t = [] then [] else t.splitOn x

theorem words_eq_nil_iff {t : Text} : words x t = [] ↔ t = [] := by
  unfold words
  split
  · next h => simp [h]
  · next h => simp [h, List.splitOn_ne_nil]

theorem words_inj {s t : Text} : words x s = words x t ↔ s = t := by
  refine ⟨fun h => ?_, fun h => h ▸ rfl⟩
  by_cases hs : s = []
  · rw [words_eq_nil_iff.mpr hs, eq_comm, words_eq_nil_iff] at h
    rw [hs, h]
  · have ht : t ≠ [] := fun ht => hs (words_eq_nil_iff.mp (h.trans (words_eq_nil_iff.mpr ht)))
    rw [words, words, if_neg hs, if_neg ht] at h
    exact splitOn_inj.mp h

/-- Separators at the beginning of a text are empty pieces. -/
theorem dropWhile_splitOn (t : Text) :
    (t.splitOn x).dropWhile List.isEmpty = words x (t.dropWhile (· == x)) := by
  induction t with
  | nil => rfl
  | cons c t ih =>
    by_cases hc : c = x
    · rw [List.splitOn_cons_eq_if_modifyHead, List.dropWhile_cons_of_pos (by simpa using hc), ← ih]
      simp [hc]
    · obtain ⟨first, others, hpieces⟩ := List.exists_cons_of_ne_nil (List.splitOn_ne_nil x t)
      rw [List.dropWhile_cons_of_neg (by simpa using hc), words, if_neg (List.cons_ne_nil c t),
        splitOn_cons_of_ne hc, hpieces]
      rfl

/-- Separators at the end of a text are empty pieces. -/
theorem rdropWhile_splitOn (t : Text) :
    (t.splitOn x).rdropWhile List.isEmpty = words x (t.rdropWhile (· == x)) := by
  induction t with
  | nil => rfl
  | cons c t ih =>
    by_cases hc : c = x
    · subst hc
      rw [List.splitOn_cons_eq_if_modifyHead, if_pos (beq_self_eq_true c), rdropWhile_cons,
        rdropWhile_cons, ih]
      by_cases hrest : t.rdropWhile (· == c) = []
      · simp [hrest, words]
      · simp [hrest, words, List.splitOn_cons_eq_if_modifyHead]
    · obtain ⟨first, others, hpieces⟩ := List.exists_cons_of_ne_nil (List.splitOn_ne_nil x t)
      rw [splitOn_cons_of_ne hc, hpieces, List.modifyHead_cons, rdropWhile_cons, rdropWhile_cons,
        if_neg (by simp), if_neg (by simp [hc]), words, if_neg (List.cons_ne_nil c _),
        splitOn_cons_of_ne hc]
      -- the first piece grows by the character, whether or not something is left behind it
      rw [hpieces, rdropWhile_cons] at ih
      by_cases hrest : t.rdropWhile (· == x) = []
      · rw [hrest, words_eq_nil_iff.mpr rfl] at ih
        split at ih
        · next hnil => simp [hrest, hnil.1, List.isEmpty_iff.mp hnil.2]
        · cases ih
      · rw [words, if_neg hrest] at ih
        split at ih
        · exact absurd ih.symm (List.splitOn_ne_nil x _)
        · rw [← ih, List.modifyHead_cons]

theorem rdropWhile_words (t : Text) :
    (words x t).rdropWhile List.isEmpty = words x (t.rdropWhile (· == x)) := by
  by_cases ht : t = []
  · rw [ht]
    rfl
  · rw [words, if_neg ht, rdropWhile_splitOn]

end WorkflowLens.Text
