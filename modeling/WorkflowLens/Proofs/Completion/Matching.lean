import Mathlib.Data.List.NodupEquivFin
import WorkflowLens.Completion.Item

/-!
# What goes with a typed prefix

A typed prefix is compared with a candidate in one pass: each character that comes next in the
prefix is taken as soon as it occurs in the candidate, and the first one has to be the first of
the candidate.  Taking a character as soon as it occurs loses nothing, so the pass succeeds
exactly if there are any places in order at which the characters stand.

Both texts are brought into lower case before, by which a character may become several ones.  The
lower case of two texts one after the other is made up of those of both, so what is typed next can
only take candidates away.

* `sublist_of_strictMono`: characters at places in order are a subsequence.
* `isAnchoredSubsequence_iff`: the pass finds the subsequences that begin with the candidate.
* `isAnchoredSubsequence_iff_exists`: the pass succeeds exactly if there are places.
* `fuzzyMatches_spec`: which candidates go with a prefix, and what is left for a longer one.
-/

namespace WorkflowLens.Text

/-- Places in order at which all characters of one text stand in another one, the first at its
beginning. -/
structure IsPlacing (wanted available : Text) (place : ℕ → ℕ) : Prop where
  strictMono : StrictMono place
  zero_eq : place 0 = 0
  getElem?_eq : ∀ i c, wanted[i]? = some c → available[place i]? = some c

/-- The places behind a first character, when those without it are known. -/
def placeBehind (place : ℕ → ℕ) : ℕ → ℕ
  | 0 => 0
  | i + 1 => place i + 1

theorem strictMono_placeBehind {place : ℕ → ℕ} (h : StrictMono place) :
    StrictMono (placeBehind place) := by
  refine strictMono_nat_of_lt_succ fun i => ?_
  cases i with
  | zero => exact Nat.succ_pos _
  | succ i => exact Nat.succ_lt_succ (h (Nat.lt_succ_self i))

/-! ## Subsequences -/

/-- Characters that stand at places in order are a subsequence. -/
theorem sublist_of_strictMono {wanted : Text} : ∀ {available : Text} {place : ℕ → ℕ},
    StrictMono place → (∀ i c, wanted[i]? = some c → available[place i]? = some c) →
    wanted.Sublist available := by
  induction wanted with
  | nil => exact fun _ _ => List.nil_sublist _
  | cons w wanted ih =>
    intro available place hmono hplace
    obtain ⟨hlt, hw⟩ := List.getElem?_eq_some_iff.mp (hplace 0 w rfl)
    -- the other characters stand behind the first one
    have hrest : wanted.Sublist (available.drop (place 0 + 1)) := by
      refine @ih _ (fun i => place (i + 1) - (place 0 + 1)) (fun i j hij => ?_)
        fun i c hc => ?_
      · exact Nat.sub_lt_sub_right (hmono (Nat.succ_pos i)) (hmono (Nat.succ_lt_succ hij))
      · have hfirst := hmono (Nat.succ_pos i)
        rw [List.getElem?_drop, Nat.add_sub_cancel' hfirst]
        exact hplace (i + 1) c hc
    have hdrop : available.drop (place 0) = w :: available.drop (place 0 + 1) := by
      rw [List.drop_eq_getElem_cons hlt, hw]
    have hall := hrest.cons_cons w
    rw [← hdrop] at hall
    exact hall.trans (List.drop_sublist _ _)

/-- The pass finds the subsequences that begin with the first character. -/
theorem isAnchoredSubsequence_iff {wanted available : Text} :
    isAnchoredSubsequence wanted available = true ↔
      wanted.Sublist available ∧ (wanted ≠ [] → wanted.head? = available.head?) := by
  cases wanted with
  | nil => simp [isAnchoredSubsequence]
  | cons w wanted =>
    cases available with
    | nil => simp [isAnchoredSubsequence]
    | cons a available =>
      rw [isAnchoredSubsequence, Bool.and_eq_true, beq_iff_eq, List.isSublist_iff_sublist]
      constructor
      · rintro ⟨rfl, hrest⟩
        exact ⟨hrest.cons_cons w, fun _ => rfl⟩
      · rintro ⟨hsub, hhead⟩
        obtain rfl : w = a := Option.some.inj (hhead (List.cons_ne_nil _ _))
        exact ⟨rfl, List.cons_sublist_cons.mp hsub⟩

/-- The pass succeeds exactly if nothing is wanted or there are places. -/
theorem isAnchoredSubsequence_iff_exists {wanted available : Text} :
    isAnchoredSubsequence wanted available = true ↔
      wanted = [] ∨ ∃ place, IsPlacing wanted available place := by
  rw [isAnchoredSubsequence_iff]
  constructor
  · rintro ⟨hsub, hhead⟩
    cases wanted with
    | nil => exact .inl rfl
    | cons w wanted =>
      obtain ⟨rest, rfl⟩ := List.head?_eq_some_iff.mp (hhead (List.cons_ne_nil _ _)).symm
      obtain ⟨place, hplace⟩ :=
        List.sublist_iff_exists_orderEmbedding_getElem?_eq.mp (List.cons_sublist_cons.mp hsub)
      refine .inr ⟨placeBehind place, strictMono_placeBehind place.strictMono, rfl,
        fun i c hc => ?_⟩
      cases i with
      | zero => exact hc
      | succ i =>
        rw [List.getElem?_cons_succ, hplace i] at hc
        exact hc
  · rintro (rfl | ⟨place, h⟩)
    · exact ⟨List.nil_sublist _, fun hne => absurd rfl hne⟩
    · refine ⟨sublist_of_strictMono h.strictMono h.getElem?_eq, fun hne => ?_⟩
      obtain ⟨w, wanted, rfl⟩ := List.exists_cons_of_ne_nil hne
      have hfirst := h.getElem?_eq 0 w rfl
      rw [h.zero_eq, ← List.head?_eq_getElem?] at hfirst
      exact hfirst.symm

/-! ## Prefixes -/

theorem lower_append (s t : Text) : lower (s ++ t) = lower s ++ lower t :=
  List.flatMap_append

theorem isAnchoredSubsequence_self (t : Text) : isAnchoredSubsequence t t = true :=
  isAnchoredSubsequence_iff.mpr ⟨List.Sublist.refl t, fun _ => rfl⟩

theorem isAnchoredSubsequence_trans {s t u : Text} (hst : isAnchoredSubsequence s t = true)
    (htu : isAnchoredSubsequence t u = true) : isAnchoredSubsequence s u = true := by
  rw [isAnchoredSubsequence_iff] at hst htu ⊢
  refine ⟨hst.1.trans htu.1, fun hs => ?_⟩
  have ht : t ≠ [] := by
    rintro rfl
    exact hs (List.sublist_nil.mp hst.1)
  exact (hst.2 hs).trans (htu.2 ht)

theorem isAnchoredSubsequence_append_left (s t : Text) : isAnchoredSubsequence s (s ++ t) = true :=
  isAnchoredSubsequence_iff.mpr ⟨List.sublist_append_left s t, fun hs =>
    (List.head?_append_of_ne_nil s hs).symm⟩

/-- A candidate that goes with a longer prefix goes with the shorter one. -/
theorem fuzzyMatches_of_append {typed more candidate : Text}
    (h : fuzzyMatches (typed ++ more) candidate = true) : fuzzyMatches typed candidate = true := by
  rw [fuzzyMatches, lower_append] at h
  exact isAnchoredSubsequence_trans (isAnchoredSubsequence_append_left _ _) h

/-- **Which candidates go with a prefix.**  The pass over a candidate succeeds exactly if the
prefix is empty in lower case or its characters have places in order in the lower case of the
candidate, the first at the beginning.  So every text goes with itself, what goes with a candidate
goes with all that the candidate goes with, and a longer prefix keeps some of the items of a
shorter one, in the same order. -/
theorem fuzzyMatches_spec :
    (∀ typed candidate, fuzzyMatches typed candidate = true ↔
      typed.lower = [] ∨ ∃ place, IsPlacing typed.lower candidate.lower place) ∧
    (∀ t, fuzzyMatches t t = true) ∧
    (∀ s t u, fuzzyMatches s t = true → fuzzyMatches t u = true → fuzzyMatches s u = true) ∧
    ∀ (typed more : Text) (items : List Item),
      (Item.matching (typed ++ more) items).Sublist (Item.matching typed items) := by
  refine ⟨fun typed candidate => isAnchoredSubsequence_iff_exists,
    fun t => isAnchoredSubsequence_self t.lower,
    fun s t u => isAnchoredSubsequence_trans, fun typed more items => ?_⟩
  exact List.monotone_filter_right items fun i => fuzzyMatches_of_append

end WorkflowLens.Text
