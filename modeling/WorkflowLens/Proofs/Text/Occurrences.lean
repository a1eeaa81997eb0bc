import WorkflowLens.Proofs.Text.Places
import WorkflowLens.Text.Blank

/-!
# Occurrences in parts of a text

The occurrences of a needle in a text do not overlap, so where one of them is reported depends on
what was reported before.  Still the search can be cut in two at a character that does not occur
in the needle, such as a line feed in front of which a word is looked for: no occurrence goes over
it, and the search goes on after it as if it had just begun.

* `infix_append_cons_iff`: a needle stands on one side of a character that is not in it.
* `infix_trim_iff`: blanks around a text do not matter for a needle without blanks.
* `occurrencesFrom_append_cons`: the cut at a character that is not in the needle.
* `occurrencesFrom_append_of_forall_ne`: characters with which the needle does not begin are passed
  over.
* `occurrencesFrom_eq_map`: the offset of the text is only added.
-/

namespace WorkflowLens.Text

/-- A beginning that does not contain a separator lies in front of the first separator. -/
theorem isPrefix_of_isPrefix_append_cons {needle s t : Text} {c : Char} (hc : c ∉ needle)
    (h : needle <+: s ++ c :: t) : needle <+: s := by
  obtain ⟨rest, hrest⟩ := h
  rcases List.append_eq_append_iff.mp hrest with ⟨between, hs, -⟩ | ⟨beyond, hneedle, hbeyond⟩
  · exact ⟨between, hs.symm⟩
  · cases beyond with
    | nil => exact ⟨[], by rw [hneedle, List.append_nil, List.append_nil]⟩
    | cons d beyond =>
      rw [List.cons_append, List.cons.injEq] at hbeyond
      rw [hbeyond.1, hneedle] at hc
      simp at hc

/-- A beginning does not go on into a text whose first character is not in it. -/
theorem isPrefix_of_isPrefix_append {needle s t : Text} (ht : ∀ c ∈ t.head?, c ∉ needle)
    (h : needle <+: s ++ t) : needle <+: s := by
  cases t with
  | nil => rwa [List.append_nil] at h
  | cons c t => exact isPrefix_of_isPrefix_append_cons (ht c rfl) h

/-- An end that does not contain a separator lies behind the last separator. -/
theorem isSuffix_append_cons_iff {needle s t : Text} {c : Char} (hc : c ∉ needle) :
    needle <:+ s ++ c :: t ↔ needle <:+ t := by
  constructor
  · intro h
    rw [← List.reverse_prefix, List.reverse_append, List.reverse_cons, List.append_assoc,
      List.singleton_append] at h
    exact List.reverse_prefix.mp
      (isPrefix_of_isPrefix_append_cons (fun hmem => hc (List.mem_reverse.mp hmem)) h)
  · exact fun h => h.trans ((List.suffix_cons c t).trans (List.suffix_append s _))

theorem startsWith_append_cons {needle s t : Text} {c : Char} (hc : c ∉ needle) :
    startsWith needle (s ++ c :: t) = startsWith needle s := by
  rw [Bool.eq_iff_iff, startsWith_iff, startsWith_iff]
  constructor
  · exact isPrefix_of_isPrefix_append_cons hc
  · exact fun h => h.trans (List.prefix_append s _)

/-- A text without the separator stands on one side of it. -/
theorem infix_append_cons_iff {needle : Text} {c : Char} (hc : c ∉ needle) (s t : Text) :
    needle <:+: s ++ c :: t ↔ needle <:+: s ∨ needle <:+: t := by
  constructor
  · intro h
    induction s with
    | nil =>
      rcases List.infix_cons_iff.mp h with hstarts | hrest
      · exact .inl (isPrefix_of_isPrefix_append_cons hc hstarts).isInfix
      · exact .inr hrest
    | cons d s ih =>
      rcases List.infix_cons_iff.mp h with hstarts | hrest
      · exact .inl (isPrefix_of_isPrefix_append_cons (s := d :: s) hc hstarts).isInfix
      · rcases ih hrest with hs | ht
        · exact .inl (List.infix_cons hs)
        · exact .inr ht
  · rintro (hs | ht)
    · exact hs.trans (List.prefix_append s _).isInfix
    · exact ht.trans ((List.suffix_cons c t).trans (List.suffix_append s _)).isInfix

/-- Characters that are not in the needle can be left away in front of a text. -/
theorem infix_dropWhile_iff {needle : Text} {p : Char → Bool} (hp : ∀ c ∈ needle, p c = false)
    (t : Text) : needle <:+: t.dropWhile p ↔ needle <:+: t := by
  induction t with
  | nil => rfl
  | cons c t ih =>
    by_cases hc : p c = true
    · have hnot : c ∉ needle := by
        intro hmem
        rw [hp c hmem] at hc
        cases hc
      have hcut := infix_append_cons_iff hnot [] t
      rw [List.nil_append] at hcut
      rw [List.dropWhile_cons_of_pos hc, ih, hcut]
      refine ⟨.inr, ?_⟩
      rintro (hnil | ht)
      · rw [List.infix_nil.mp hnil]
        exact List.nil_infix
      · exact ht
    · rw [List.dropWhile_cons_of_neg hc]

/-- A text without blanks is found in a text exactly if it is found there without the blanks
around. -/
theorem infix_trim_iff {needle : Text} (hneedle : ∀ c ∈ needle, isBlank c = false) (t : Text) :
    needle <:+: trim t ↔ needle <:+: t := by
  have hreverse : ∀ c ∈ needle.reverse, isBlank c = false :=
    fun c hc => hneedle c (List.mem_reverse.mp hc)
  unfold trim trimEnd dropEndWhile trimStart
  rw [← List.reverse_infix, List.reverse_reverse, infix_dropWhile_iff hreverse,
    List.reverse_infix, infix_dropWhile_iff hneedle]

/-- **A search can be cut in two at a character that does not occur in the needle.** -/
theorem occurrencesFrom_append_cons {needle : Text} {c : Char} (hneedle : needle ≠ [])
    (hc : c ∉ needle) (s t : Text) (offset skip : Nat) (hskip : skip ≤ s.length) :
    occurrencesFrom needle offset skip (s ++ c :: t)
      = occurrencesFrom needle offset skip s
        ++ occurrencesFrom needle (offset + byteSize s + c.utf8Size) 0 t := by
  induction s generalizing offset skip with
  | nil =>
    have hzero : skip = 0 := Nat.le_zero.mp hskip
    have hno : startsWith needle (c :: t) = false := by
      have hcons := @startsWith_append_cons needle [] t c hc
      rw [List.nil_append] at hcons
      rw [hcons, ← Bool.not_eq_true, startsWith_iff, List.prefix_nil]
      exact hneedle
    have hempty : occurrencesFrom needle offset 0 [] = [] := by rw [occurrencesFrom]
    rw [hzero, List.nil_append, hempty, List.nil_append, occurrencesFrom, hno, byteSize_nil]
    rfl
  | cons d s ih =>
    have hoffset : offset + d.utf8Size + byteSize s + c.utf8Size
        = offset + byteSize (d :: s) + c.utf8Size := by
      rw [byteSize_cons]
      omega
    cases skip with
    | succ skip =>
      rw [List.cons_append, occurrencesFrom, occurrencesFrom,
        ih _ _ (Nat.le_of_succ_le_succ hskip), hoffset]
    | zero =>
      rw [List.cons_append, occurrencesFrom, occurrencesFrom, ← List.cons_append,
        startsWith_append_cons hc]
      split
      · next hstarts =>
        -- the occurrence ends in front of the cut
        have hle := (startsWith_iff.mp hstarts).length_le
        rw [List.length_cons] at hle
        rw [ih _ _ (by omega), hoffset, List.cons_append]
      · rw [ih _ _ (Nat.zero_le _), hoffset]

/-- Characters at which the needle cannot begin are passed over. -/
theorem occurrencesFrom_append_of_forall_ne {x : Char} {needle : Text} {s : Text}
    (hs : ∀ c ∈ s, c ≠ x) (t : Text) (offset : Nat) :
    occurrencesFrom (x :: needle) offset 0 (s ++ t)
      = occurrencesFrom (x :: needle) (offset + byteSize s) 0 t := by
  induction s generalizing offset with
  | nil => rw [List.nil_append, byteSize_nil, Nat.add_zero]
  | cons c s ih =>
    have hno : startsWith (x :: needle) (c :: (s ++ t)) = false := by
      rw [← Bool.not_eq_true, startsWith_iff, List.cons_prefix_cons]
      exact fun h => hs c (List.mem_cons_self ..) h.1.symm
    rw [List.cons_append, occurrencesFrom, hno, if_neg Bool.false_ne_true,
      ih (fun d hd => hs d (List.mem_cons_of_mem c hd)), byteSize_cons, Nat.add_assoc]

/-- The offset of the text is only added to the places. -/
theorem occurrencesFrom_eq_map (needle : Text) (t : Text) (offset start skip : Nat) :
    occurrencesFrom needle (offset + start) skip t
      = (occurrencesFrom needle start skip t).map (offset + ·) := by
  induction t generalizing start skip with
  | nil => rw [occurrencesFrom, occurrencesFrom, List.map_nil]
  | cons c t ih =>
    cases skip with
    | succ skip => rw [occurrencesFrom, occurrencesFrom, Nat.add_assoc, ih]
    | zero =>
      rw [occurrencesFrom, occurrencesFrom, Nat.add_assoc]
      split
      · rw [ih, List.map_cons]
      · rw [ih]

end WorkflowLens.Text
