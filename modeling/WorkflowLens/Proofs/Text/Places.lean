import Mathlib.Data.List.Basic
import WorkflowLens.Text.Search

/-!
# Places in a text

A byte offset means something only where it does not cut a character in two.  A place is such an
offset, and each search in a text is said to be right by the split of the text that it finds:
what stands before the place, what was looked for, and the rest.

* `cut_eq_ok_iff`, `isBoundary_iff`: a cut succeeds exactly at the size of a prefix.
* `splitAtFirst?_singleton_eq_some_iff`: the first place where a character stands.
* `find?_eq_some_iff`: the first place where a text stands.
* `occurrencesFrom_sound`, `pairwise_lt_occurrencesFrom`: the places of a text that do not overlap,
  in order.
-/

namespace WorkflowLens.Text

/-! ## Cuts -/

theorem cut_eq_ok_iff {t before after : Text} {n : Nat} :
    t.cut n = .ok (before, after) ↔ t = before ++ after ∧ byteSize before = n := by
  constructor
  · exact cut_sound
  · rintro ⟨rfl, rfl⟩
    exact cut_append before after

/-- An offset is a boundary exactly when it is the size of a prefix. -/
theorem isBoundary_iff {t : Text} {n : Nat} :
    t.isBoundary n = true ↔ ∃ before after, t = before ++ after ∧ byteSize before = n := by
  unfold isBoundary
  constructor
  · intro h
    split at h
    · next p hcut => exact ⟨p.1, p.2, cut_eq_ok_iff.mp hcut⟩
    · cases h
  · rintro ⟨before, after, ht, hn⟩
    rw [cut_eq_ok_iff.mpr ⟨ht, hn⟩]

theorem isBoundary_append (before after : Text) :
    (before ++ after).isBoundary (byteSize before) = true :=
  isBoundary_iff.mpr ⟨before, after, rfl, rfl⟩

theorem isBoundary_zero (t : Text) : t.isBoundary 0 = true :=
  isBoundary_append [] t

theorem le_byteSize_of_isBoundary {t : Text} {n : Nat} (h : t.isBoundary n = true) :
    n ≤ t.byteSize := by
  obtain ⟨before, after, rfl, rfl⟩ := isBoundary_iff.mp h
  rw [byteSize_append]
  exact Nat.le_add_right _ _

theorem byteSize_pos {t : Text} (h : t ≠ []) : 0 < byteSize t := by
  cases t with
  | nil => exact absurd rfl h
  | cons c t =>
    have hc := c.utf8Size_pos
    rw [byteSize_cons]
    omega

/-- Of two splits of a text the one that has more before it splits the second part of the other. -/
theorem exists_append_of_byteSize_le {past rest before after : Text}
    (h : past ++ rest = before ++ after) (hle : byteSize past ≤ byteSize before) :
    ∃ between, before = past ++ between ∧ rest = between ++ after := by
  rcases List.append_eq_append_iff.mp h with hbetween | ⟨between, rfl, rfl⟩
  · exact hbetween
  · cases between with
    | nil => exact ⟨[], by simp, by simp⟩
    | cons c between =>
      have hpos := c.utf8Size_pos
      rw [byteSize_append, byteSize_cons] at hle
      omega

/-- Two splits of a text after the same number of bytes are the same. -/
theorem append_inj_of_byteSize_eq {past rest before after : Text}
    (h : past ++ rest = before ++ after) (hsize : byteSize past = byteSize before) :
    past = before ∧ rest = after := by
  have hcut := cut_append past rest
  rw [h, hsize, cut_append, Except.ok.injEq, Prod.mk.injEq] at hcut
  exact ⟨hcut.1.symm, hcut.2.symm⟩

/-! ## Searches -/

theorem startsWith_iff {needle t : Text} : startsWith needle t = true ↔ needle <+: t := by
  unfold startsWith
  rw [Option.isSome_iff_exists]
  constructor
  · rintro ⟨rest, hrest⟩
    exact ⟨rest, (stripPrefix?_eq_some_iff.mp hrest).symm⟩
  · rintro ⟨rest, hrest⟩
    exact ⟨rest, stripPrefix?_eq_some_iff.mpr hrest.symm⟩

theorem stripPrefix?_eq_none_iff {needle t : Text} :
    stripPrefix? needle t = none ↔ ¬ needle <+: t := by
  rw [← startsWith_iff, startsWith, Bool.not_eq_true, Option.isSome_eq_false_iff,
    Option.isNone_iff_eq_none]

theorem endsWith_iff {needle t : Text} : endsWith needle t = true ↔ needle <:+ t := by
  unfold endsWith
  rw [startsWith_iff, List.reverse_prefix]

theorem find?_sound {needle t : Text} {n : Nat} (h : find? needle t = some n) :
    ∃ before after, t = before ++ needle ++ after ∧ n = byteSize before := by
  obtain ⟨⟨before, after⟩, hsplit, rfl⟩ := Option.map_eq_some_iff.mp h
  exact ⟨before, after, splitAtFirst?_sound hsplit, rfl⟩

/-- A text is split at the first place of a character. -/
theorem splitAtFirst?_singleton_eq_some_iff {c : Char} {t before after : Text} :
    splitAtFirst? [c] t = some (before, after) ↔ t = before ++ c :: after ∧ c ∉ before := by
  induction t generalizing before with
  | nil => simp [splitAtFirst?, stripPrefix?]
  | cons d t ih =>
    rw [splitAtFirst?, stripPrefix?]
    by_cases hcd : c = d
    · subst hcd
      rw [if_pos rfl, stripPrefix?, Option.some.injEq, Prod.mk.injEq]
      constructor
      · rintro ⟨rfl, rfl⟩
        exact ⟨rfl, List.not_mem_nil⟩
      · rintro ⟨ht, hc⟩
        cases before with
        | nil => exact ⟨rfl, (List.cons.inj ht).2⟩
        | cons e before =>
          rw [List.cons_append, List.cons.injEq] at ht
          exact absurd (ht.1 ▸ List.mem_cons_self) hc
    · rw [if_neg hcd]
      constructor
      · intro h
        obtain ⟨⟨front, rest⟩, hsplit, heq⟩ := Option.map_eq_some_iff.mp h
        rw [Prod.mk.injEq] at heq
        obtain ⟨rfl, rfl⟩ := heq
        obtain ⟨rfl, hfront⟩ := ih.mp hsplit
        exact ⟨rfl, fun hmem => (List.mem_cons.mp hmem).elim hcd hfront⟩
      · rintro ⟨ht, hc⟩
        cases before with
        | nil => exact absurd (List.cons.inj ht).1.symm hcd
        | cons e before =>
          rw [List.cons_append, List.cons.injEq] at ht
          obtain ⟨rfl, rfl⟩ := ht
          rw [ih.mpr ⟨rfl, fun hmem => hc (List.mem_cons_of_mem d hmem)⟩]
          rfl

/-- A text has only one split at the first place of a character. -/
theorem eq_of_append_cons_eq {c : Char} {s t u v : Text} (hs : c ∉ s) (ht : c ∉ t)
    (h : s ++ c :: u = t ++ c :: v) : s = t := by
  have hleft : splitAtFirst? [c] (s ++ c :: u) = some (s, u) :=
    splitAtFirst?_singleton_eq_some_iff.mpr ⟨rfl, hs⟩
  have hright := splitAtFirst?_singleton_eq_some_iff.mpr ⟨h, ht⟩
  rw [hleft, Option.some.injEq, Prod.mk.injEq] at hright
  exact hright.1

/-- Where an occurrence is reported, the text that was looked for stands. -/
theorem occurrencesFrom_sound {needle : Text} {n : Nat} : ∀ {t : Text} {offset skip : Nat},
    n ∈ occurrencesFrom needle offset skip t →
    ∃ before after, t = before ++ needle ++ after ∧ n = offset + byteSize before
  | [], offset, skip, h => by
    rw [occurrencesFrom] at h
    simp at h
  | c :: t, offset, skip, h => by
    -- wherever the search goes on, it goes on in `t`, with `c` added to what stands before
    have hrest : ∀ skip', n ∈ occurrencesFrom needle (offset + c.utf8Size) skip' t →
        ∃ before after, c :: t = before ++ needle ++ after ∧ n = offset + byteSize before := by
      intro skip' h'
      obtain ⟨before, after, ht, hn⟩ := occurrencesFrom_sound h'
      refine ⟨c :: before, after, by rw [ht]; rfl, ?_⟩
      rw [hn, byteSize_cons]
      omega
    cases skip with
    | succ skip =>
      rw [occurrencesFrom] at h
      exact hrest skip h
    | zero =>
      rw [occurrencesFrom] at h
      split at h
      · next hstarts =>
        rcases List.mem_cons.mp h with rfl | h
        · obtain ⟨after, hafter⟩ := startsWith_iff.mp hstarts
          exact ⟨[], after, hafter.symm, by rw [byteSize_nil, Nat.add_zero]⟩
        · exact hrest _ h
      · exact hrest 0 h

/-- The places are in order. -/
theorem pairwise_lt_occurrencesFrom (needle t : Text) (offset skip : Nat) :
    (occurrencesFrom needle offset skip t).Pairwise (· < ·) := by
  induction t generalizing offset skip with
  | nil =>
    rw [occurrencesFrom]
    exact List.Pairwise.nil
  | cons c t ih =>
    cases skip with
    | succ skip =>
      rw [occurrencesFrom]
      exact ih _ skip
    | zero =>
      rw [occurrencesFrom]
      split
      · refine List.Pairwise.cons (fun n hn => ?_) (ih _ _)
        obtain ⟨before, after, -, rfl⟩ := occurrencesFrom_sound hn
        have hpos := c.utf8Size_pos
        omega
      · exact ih _ 0

/-- A text that stands at the very beginning is the first occurrence. -/
theorem head?_occurrencesFrom {needle after : Text} (hneedle : needle ≠ []) (offset : Nat) :
    (occurrencesFrom needle offset 0 (needle ++ after)).head? = some offset := by
  obtain ⟨c, t, rfl⟩ := List.exists_cons_of_ne_nil hneedle
  have hstarts : startsWith (c :: t) (c :: (t ++ after)) = true :=
    startsWith_iff.mpr ⟨after, rfl⟩
  rw [List.cons_append, occurrencesFrom, if_pos hstarts, List.head?_cons]

/-! ## Occurrences anywhere -/

theorem contains_iff {needle t : Text} : contains needle t = true ↔ needle <:+: t := by
  constructor
  · intro h
    obtain ⟨⟨before, after⟩, hsplit⟩ := Option.isSome_iff_exists.mp h
    exact ⟨before, after, (splitAtFirst?_sound hsplit).symm⟩
  · intro h
    unfold contains
    induction t with
    | nil =>
      have hstarts : startsWith needle [] = true :=
        startsWith_iff.mpr (List.prefix_nil.mpr (List.infix_nil.mp h))
      rw [splitAtFirst?, Option.isSome_map]
      exact hstarts
    | cons c t ih =>
      rw [splitAtFirst?]
      cases hstrip : stripPrefix? needle (c :: t) with
      | some after => rfl
      | none =>
        rcases List.infix_cons_iff.mp h with hstarts | hrest
        · have hsome : (stripPrefix? needle (c :: t)).isSome = true := startsWith_iff.mpr hstarts
          rw [hstrip] at hsome
          cases hsome
        · rw [Option.isSome_map]
          exact ih hrest

/-- No place is before the first one. -/
theorem le_of_find?_eq_some {needle t before after : Text} {n : Nat} (h : find? needle t = some n)
    (ht : t = before ++ (needle ++ after)) : n ≤ byteSize before := by
  induction t generalizing before n with
  | nil =>
    have hneedle : needle = [] := by
      rw [eq_comm, List.append_eq_nil_iff, List.append_eq_nil_iff] at ht
      exact ht.2.1
    rw [hneedle] at h
    rw [← Option.some.inj h]
    exact Nat.zero_le _
  | cons c t ih =>
    rw [find?, splitAtFirst?] at h
    cases hstrip : stripPrefix? needle (c :: t) with
    | some rest =>
      rw [hstrip] at h
      rw [← Option.some.inj h]
      exact Nat.zero_le _
    | none =>
      cases before with
      | nil =>
        rw [List.nil_append] at ht
        rw [stripPrefix?_eq_some_iff.mpr ht] at hstrip
        cases hstrip
      | cons d before =>
        rw [List.cons_append, List.cons.injEq] at ht
        rw [hstrip, Option.map_map] at h
        obtain ⟨sides, hsides, rfl⟩ := Option.map_eq_some_iff.mp h
        have hle := @ih before (byteSize sides.1) (by rw [find?, hsides, Option.map_some]) ht.2
        rw [byteSize_cons, ht.1]
        exact Nat.add_le_add_left hle _

/-- A search finds the first of all places. -/
theorem find?_eq_some_iff {needle t : Text} {n : Nat} :
    find? needle t = some n ↔
      (∃ before after, t = before ++ (needle ++ after) ∧ byteSize before = n) ∧
        ∀ before after, t = before ++ (needle ++ after) → n ≤ byteSize before := by
  constructor
  · intro h
    obtain ⟨before, after, ht, hn⟩ := find?_sound h
    rw [List.append_assoc] at ht
    exact ⟨⟨before, after, ht, hn.symm⟩, fun _ _ => le_of_find?_eq_some h⟩
  · rintro ⟨⟨before, after, ht, rfl⟩, hfirst⟩
    have hstands : contains needle t = true := by
      rw [contains_iff, ht, ← List.append_assoc]
      exact ⟨before, after, rfl⟩
    obtain ⟨m, hm⟩ : ∃ m, find? needle t = some m := by
      rw [← Option.isSome_iff_exists, find?, Option.isSome_map]
      exact hstands
    obtain ⟨before', after', ht', hm'⟩ := find?_sound hm
    rw [List.append_assoc] at ht'
    have hle := le_of_find?_eq_some hm ht
    have hge := hfirst before' after' ht'
    rw [hm, Option.some.injEq]
    omega

/-- A text that does not occur in `t` has no last place there. -/
theorem splitAtLast?_eq_none {needle t : Text} (h : ¬ needle <:+: t) :
    splitAtLast? needle t = none := by
  cases hsplit : splitAtLast? needle t with
  | none => rfl
  | some sides =>
    exact absurd ⟨sides.1, sides.2, (splitAtLast?_sound hsplit).symm⟩ h

/-- The last place of a text is the one after which it does not begin again. -/
theorem splitAtLast?_append {d : Char} {ds after : Text} (h : ¬ (d :: ds) <:+: ds ++ after)
    (before : Text) :
    splitAtLast? (d :: ds) (before ++ (d :: ds) ++ after) = some (before, after) := by
  induction before with
  | nil =>
    have hstrip : stripPrefix? (d :: ds) (d :: (ds ++ after)) = some after :=
      stripPrefix?_eq_some_iff.mpr rfl
    rw [List.nil_append, List.cons_append, splitAtLast?, splitAtLast?_eq_none h, hstrip]
    rfl
  | cons c before ih => rw [List.cons_append, List.cons_append, splitAtLast?, ih]

end WorkflowLens.Text
