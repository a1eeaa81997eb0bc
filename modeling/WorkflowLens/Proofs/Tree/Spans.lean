import WorkflowLens.Proofs.Tree.Walk

/-!
# When the spans of a tree are nested

The spans of a tree follow from where its nodes start, so they are nested like the nodes as long
as the starts never decrease in pre-order.  The walk of the locator says when that is: a node
starts before the one in front of it only if that one was not found, and the key of the
node stands right there behind its opening quote.  `Tree.StepsBack` says that there are such two
nodes.

* `spans_nested_iff_not_stepsBack`: the starts never decrease, children lie inside their parents,
  and siblings are in order, exactly if the walk never steps back.
* `contains_iff_eq_nodeAt_or_mem_ancestors`: if the starts never decrease, the nodes whose spans
  contain an offset are `Tree.nodeAt` of the offset and its ancestors.
-/

namespace WorkflowLens

/-- Whether a span lies in another one. -/
def Span.IsInside (s outer : Span) : Prop := outer.start ≤ s.start ∧ s.stop ≤ outer.stop

namespace Tree

/-- No node starts before a node with a smaller number. -/
def StartsInOrder (t : Tree) : Prop :=
  ∀ n m, n ≤ m → m < t.size → (t.span n).start ≤ (t.span m).start

/-- Every child lies inside its parent. -/
def ChildrenInside (t : Tree) : Prop :=
  ∀ n p, t.parent? n = some p → (t.span n).IsInside (t.span p)

/-- Of two siblings the first one ends before the second one starts. -/
def SiblingsInOrder (t : Tree) : Prop :=
  ∀ p, p < t.size → (t.children p).Pairwise fun a b => (t.span a).stop ≤ (t.span b).start

/-- Some node is not found, and the key of the next one stands in quotes where it was looked for,
the opening quote being the character before. -/
def StepsBack (t : Tree) (text : Text) : Prop :=
  ∃ n, n + 1 < t.size ∧ (t.search text n).found = none ∧
    HasQuotedKeyAt text (t.search text n).cursor (t.node (n + 1))

/-! ## From one start to the next -/

theorem startsInOrder_of_succ {t : Tree}
    (h : ∀ n, n + 1 < t.size → (t.span n).start ≤ (t.span (n + 1)).start) : t.StartsInOrder := by
  intro n m hnm
  induction m, hnm using Nat.le_induction with
  | base => exact fun _ => Nat.le_refl _
  | succ m _ ih => exact fun hm => Nat.le_trans (ih (by omega)) (h m hm)

namespace IsLocated

variable {t : Tree} {text : Text} (h : t.IsLocated text)
include h

theorem start_span_root : (t.span root).start = 0 :=
  h.start_span h.isPreorder.size_pos

theorem start_span_le_byteSize {n : Nat} (hn : n < t.size) :
    (t.span n).start ≤ text.byteSize := by
  rw [h.start_span hn]
  exact start_search_le_byteSize t text n

theorem startsInOrder_iff : t.StartsInOrder ↔ ¬ t.StepsBack text := by
  constructor
  · rintro horder ⟨n, hn, hback⟩
    have hlt := (start_search_succ_lt_iff t text n).mpr hback
    have hle := horder n (n + 1) (Nat.le_succ n) hn
    rw [h.start_span hn, h.start_span (Nat.lt_of_succ_lt hn)] at hle
    omega
  · intro hback
    refine startsInOrder_of_succ fun n hn => ?_
    rw [h.start_span hn, h.start_span (Nat.lt_of_succ_lt hn)]
    by_contra hlt
    exact hback ⟨n, hn, (start_search_succ_lt_iff t text n).mp (Nat.lt_of_not_le hlt)⟩

/-! ## Nesting -/

/-- If the starts never decrease, a node ends right where the next node starts that is not below
it, or with the text. -/
theorem stop_span_of_startsInOrder (horder : t.StartsInOrder) {n : Nat} (hn : n < t.size) :
    (t.span n).stop
      = if t.stop n < t.size then (t.span (t.stop n)).start else text.byteSize := by
  rw [h.stop_span hn]
  apply Nat.max_eq_left
  split
  · next hlt => exact horder n _ (Nat.le_of_lt (h.isPreorder.lt_stop hn)) hlt
  · exact h.start_span_le_byteSize hn

/-- Nodes that end later in the tree end later in the text. -/
theorem stop_span_mono (horder : t.StartsInOrder) {n m : Nat} (hn : n < t.size) (hm : m < t.size)
    (hstop : t.stop n ≤ t.stop m) : (t.span n).stop ≤ (t.span m).stop := by
  rw [h.stop_span_of_startsInOrder horder hn, h.stop_span_of_startsInOrder horder hm]
  by_cases hlast : t.stop m < t.size
  · rw [if_pos hlast, if_pos (Nat.lt_of_le_of_lt hstop hlast)]
    exact horder _ _ hstop hlast
  · rw [if_neg hlast]
    split
    · next hlt => exact h.start_span_le_byteSize hlt
    · exact Nat.le_refl _

theorem childrenInside (horder : t.StartsInOrder) : t.ChildrenInside := by
  intro n p hp
  have hn := lt_size_of_parent hp
  have hpn := h.isPreorder.parent_lt hp
  exact ⟨horder p n (Nat.le_of_lt hpn) hn,
    h.stop_span_mono horder hn (Nat.lt_trans hpn hn) (h.isPreorder.stop_le_stop_of_parent hp)⟩

theorem siblingsInOrder (horder : t.StartsInOrder) : t.SiblingsInOrder := by
  intro p hp
  have hchild : ∀ {c : Nat}, c ∈ t.children p → c < t.size := fun hc =>
    lt_size_of_parent ((h.isPreorder.mem_children_iff hp).mp hc)
  refine (h.isPreorder.pairwise_children hp).imp_of_mem fun {a b} ha hb hab => ?_
  have hlt := Nat.lt_of_le_of_lt hab (hchild hb)
  rw [h.stop_span_of_startsInOrder horder (hchild ha), if_pos hlt]
  exact horder _ b hab (hchild hb)

end IsLocated

/-- **The spans are nested like the nodes exactly if the walk never steps back.** -/
theorem spans_nested_iff_not_stepsBack {t : Tree} {text : Text} (h : t.IsLocated text) :
    (t.StartsInOrder ∧ t.ChildrenInside ∧ t.SiblingsInOrder) ↔ ¬ t.StepsBack text := by
  rw [← h.startsInOrder_iff]
  constructor
  · exact fun hnested => hnested.1
  · exact fun horder => ⟨horder, h.childrenInside horder, h.siblingsInOrder horder⟩

/-! ## The node at an offset -/

/-- Searching a range backwards finds the last number. -/
theorem find?_reverse_range_eq_some {p : Nat → Bool} {size n : Nat}
    (h : (List.range size).reverse.find? p = some n) :
    n < size ∧ p n = true ∧ ∀ m, n < m → m < size → p m = false := by
  induction size with
  | zero => cases h
  | succ size ih =>
    rw [List.range_succ, List.reverse_append, List.reverse_singleton, List.singleton_append,
      List.find?_cons] at h
    cases hlast : p size with
    | true =>
      rw [hlast] at h
      cases h
      exact ⟨Nat.lt_succ_self _, hlast, fun m hlt hm => by omega⟩
    | false =>
      rw [hlast] at h
      obtain ⟨hn, hp, hafter⟩ := ih h
      refine ⟨Nat.lt_succ_of_lt hn, hp, fun m hlt hm => ?_⟩
      rcases Nat.eq_or_lt_of_le (Nat.le_of_lt_succ hm) with rfl | hm
      · exact hlast
      · exact hafter m hlt hm

/-- Nodes that are not in the tree contain nothing. -/
theorem lt_size_of_contains {t : Tree} {n offset : Nat} (h : (t.span n).Contains offset) :
    n < t.size := by
  by_contra hn
  rw [span, node_eq_absent (Nat.le_of_not_lt hn)] at h
  exact absurd h.2 (Nat.not_lt_zero offset)

namespace IsLocated

variable {t : Tree} {text : Text} (h : t.IsLocated text)
include h

/-- The node at an offset is the last one that starts at or before it. -/
theorem nodeAt_spec (offset : Nat) : t.nodeAt offset < t.size ∧
    (t.span (t.nodeAt offset)).start ≤ offset ∧
    ∀ m, t.nodeAt offset < m → m < t.size → offset < (t.span m).start := by
  rw [nodeAt]
  cases hfound : (List.range t.size).reverse.find? fun n => (t.span n).start ≤ offset with
  | none =>
    -- the root starts with the text
    have hroot := List.find?_eq_none.mp hfound root
      (List.mem_reverse.mpr (List.mem_range.mpr h.isPreorder.size_pos))
    simp [h.start_span_root] at hroot
  | some n =>
    obtain ⟨hn, hstart, hafter⟩ := find?_reverse_range_eq_some hfound
    exact ⟨hn, of_decide_eq_true hstart,
      fun m hlt hm => Nat.lt_of_not_le (of_decide_eq_false (hafter m hlt hm))⟩

/-- A node contains an offset if the node at the offset is the node or below it. -/
theorem contains_iff (horder : t.StartsInOrder) {offset : Nat} (hoffset : offset < text.byteSize)
    {n : Nat} (hn : n < t.size) :
    (t.span n).Contains offset ↔ n ≤ t.nodeAt offset ∧ t.nodeAt offset < t.stop n := by
  obtain ⟨hat, hstart, hafter⟩ := h.nodeAt_spec offset
  have hbegin : (t.span n).start ≤ offset ↔ n ≤ t.nodeAt offset := by
    constructor
    · intro hle
      by_contra hlt
      exact absurd (hafter n (Nat.lt_of_not_le hlt) hn) (Nat.not_lt.mpr hle)
    · exact fun hle => Nat.le_trans (horder n _ hle hat) hstart
  have hend : offset < (t.span n).stop ↔ t.nodeAt offset < t.stop n := by
    rw [h.stop_span_of_startsInOrder horder hn]
    split
    · next hlt =>
      constructor
      · intro hstop
        by_contra hle
        have hearlier := horder _ _ (Nat.le_of_not_lt hle) hat
        omega
      · exact fun hbelow => hafter _ hbelow hlt
    · exact ⟨fun _ => by omega, fun _ => hoffset⟩
  exact and_congr hbegin hend

end IsLocated

/-- **If the starts never decrease, the nodes whose spans contain an offset of the text are the
node at the offset and its ancestors, so that it is the deepest of them.** -/
theorem contains_iff_eq_nodeAt_or_mem_ancestors {t : Tree} {text : Text} (h : t.IsLocated text)
    (horder : t.StartsInOrder) {offset : Nat} (hoffset : offset < text.byteSize) :
    (∀ n, (t.span n).Contains offset ↔
        n = t.nodeAt offset ∨ n ∈ t.ancestors (t.nodeAt offset)) ∧
      ∀ n, (t.span n).Contains offset → n ≠ t.nodeAt offset →
        (t.ancestors n).length < (t.ancestors (t.nodeAt offset)).length := by
  have hat := (h.nodeAt_spec offset).1
  have hcontains : ∀ n, (t.span n).Contains offset ↔
      n = t.nodeAt offset ∨ n ∈ t.ancestors (t.nodeAt offset) := by
    intro n
    rw [← List.mem_cons, ← IsPreorder.ancestorsOrSelf_eq_cons,
      h.isPreorder.mem_ancestorsOrSelf_iff hat]
    constructor
    · intro hn
      exact (h.contains_iff horder hoffset (lt_size_of_contains hn)).mp hn
    · intro hn
      exact (h.contains_iff horder hoffset (Nat.lt_of_le_of_lt hn.1 hat)).mpr hn
  refine ⟨hcontains, fun n hn hne => ?_⟩
  exact h.isPreorder.length_ancestors_lt (((hcontains n).mp hn).resolve_left hne)

/-- The tree of the text `a: [b]`. -/
def nestedTree : Tree :=
  ⟨#[⟨none, none, .mapping, none, [1], 0, 3, Span.upTo 0 6⟩,
    ⟨some "a", none, .sequence, some 0, [2], 0, 3, Span.upTo 0 6⟩,
    ⟨none, some "b", .scalar, some 1, [], 0, 3, Span.upTo 4 6⟩]⟩

theorem isLocated_nestedTree : nestedTree.IsLocated "a: [b]".toList :=
  isLocated_of_decode (by decide +kernel)

theorem startsInOrder_nestedTree : nestedTree.StartsInOrder := by
  refine startsInOrder_of_succ fun n hn => ?_
  have hlast : n < 2 := by
    have hsize : nestedTree.size = 3 := rfl
    omega
  match n with
  | 0 => decide
  | 1 => decide

/-- The item, the entry and the whole document contain an offset in the item. -/
theorem contains_nestedTree : nestedTree.IsLocated "a: [b]".toList ∧
    nestedTree.StartsInOrder ∧ 4 < Text.byteSize "a: [b]".toList ∧ nestedTree.nodeAt 4 = 2 ∧
    ∀ n, (nestedTree.span n).Contains 4 ↔ n = 2 ∨ n ∈ [1, 0] := by
  have hoffset : 4 < Text.byteSize "a: [b]".toList := by decide
  refine ⟨isLocated_nestedTree, startsInOrder_nestedTree, hoffset, rfl, ?_⟩
  exact (contains_iff_eq_nodeAt_or_mem_ancestors isLocated_nestedTree startsInOrder_nestedTree
    hoffset).1

/-! ## A walk that steps back

A sequence holds a string and a mapping with one entry.  The string is a comma, a blank and a
quote.  It is written with escapes, so what is found is not the string, but what stands between
the string and the name of the key.  The mapping has no brace and is not found, so it starts where
the key is looked for, and the key starts with its quote one byte before.
-/

/-- The text of the sequence. -/
def crossedText : Text := "[\"\\x2c \\\"\", \"k\": x]".toList

/-- The tree of the sequence: the mapping starts at 13, and its key at 12. -/
def crossedTree : Tree :=
  ⟨#[⟨none, none, .sequence, none, [1, 2], 0, 4, Span.upTo 0 19⟩,
    ⟨none, some ", \"", .scalar, some 0, [], 0, 2, Span.upTo 10 13⟩,
    ⟨none, none, .mapping, some 0, [3], 1, 4, Span.upTo 13 19⟩,
    ⟨some "k", some "x", .scalar, some 2, [], 0, 4, Span.upTo 12 19⟩]⟩

theorem decode_crossedText : decode crossedText = .ok crossedTree := by
  decide +kernel

/-- **A document has a key that starts before the mapping it is in.** -/
theorem decode_crossedText_not_nested : decode crossedText = .ok crossedTree ∧
    ¬ crossedTree.StartsInOrder ∧ ¬ crossedTree.ChildrenInside := by
  refine ⟨decode_crossedText, fun horder => ?_, fun hinside => ?_⟩
  · exact absurd (horder 2 3 (by decide) (by decide)) (by decide)
  · exact absurd (hinside 3 2 rfl).1 (by decide)

/-- The walk through this document steps back. -/
theorem stepsBack_crossedTree :
    crossedTree.IsLocated crossedText ∧ crossedTree.StepsBack crossedText := by
  have hlocated := isLocated_of_decode decode_crossedText
  refine ⟨hlocated, ?_⟩
  by_contra hback
  have horder := ((spans_nested_iff_not_stepsBack hlocated).mpr hback).1
  exact absurd (horder 2 3 (by decide) (by decide)) (by decide)

end Tree

end WorkflowLens
