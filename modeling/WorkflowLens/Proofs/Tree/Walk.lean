import WorkflowLens.Document.Repair
import WorkflowLens.Proofs.Tree.Anchors
import WorkflowLens.Proofs.Tree.Preorder

/-!
# The walk of the locator

The locator looks for the nodes of a tree in pre-order, each from where the search before it
ended.  Here the walk is told node by node: `Tree.search t text n` is the search for node `n`, with
the offset it began at and the anchor it found.  A node that is not found stands at the offset
where it was looked for, and the next search begins there again.

So two searches in a row go forward whenever the first one finds something, for an anchor ends
after its start and the next one is at most one byte before that end.  Only after a search that
found nothing can the next start be smaller, and then by one byte.

* `Tree.search`, `locate_eq`: the walk, and the spans that come of it.  Locating never fails.
* `start_search_succ_lt_iff`: when a node starts before the node in front of it.
* `Tree.IsLocated`: the trees that decoding makes, `isLocated_of_decode` and
  `exists_isLocated_of_decodePartial?`, with `IsLocated.isPreorder`, `IsLocated.start_span` and
  `IsLocated.stop_span`.
-/

namespace WorkflowLens.Tree

/-- A search for a node: the offset it begins at, and what it finds. -/
structure Search where
  cursor : Nat
  found : Option Anchor

/-- The anchor that a search leaves behind: the cursor if nothing was found. -/
def Search.anchor (s : Search) : Anchor := s.found.getD ⟨s.cursor, s.cursor⟩

/-- The search for a node.  The root is not looked for. -/
def search (t : Tree) (text : Text) : Nat → Search
  | 0 => ⟨0, none⟩
  | n + 1 =>
    let cursor := (t.search text n).anchor.next
    ⟨cursor, found? text cursor (t.node (n + 1))⟩

theorem cursor_search_succ (t : Tree) (text : Text) (n : Nat) :
    (t.search text (n + 1)).cursor = (t.search text n).anchor.next := rfl

theorem found_search_succ (t : Tree) (text : Text) (n : Nat) :
    (t.search text (n + 1)).found
      = found? text (t.search text (n + 1)).cursor (t.node (n + 1)) := rfl

variable {t : Tree} {text : Text}

/-! ## One search after the other -/

/-- Every search begins between two characters, and so does the one after it. -/
theorem isBoundary_search (t : Tree) (text : Text) (n : Nat) :
    text.isBoundary (t.search text n).cursor = true ∧
      text.isBoundary (t.search text n).anchor.next = true := by
  induction n with
  | zero => exact ⟨Text.isBoundary_zero text, Text.isBoundary_zero text⟩
  | succ n ih =>
    have hcursor : text.isBoundary (t.search text (n + 1)).cursor = true := ih.2
    refine ⟨hcursor, ?_⟩
    rw [Search.anchor]
    cases hfound : (t.search text (n + 1)).found with
    | none => exact hcursor
    | some a => exact (follows_of_found? hcursor hfound).next_isBoundary

/-- What a search finds follows the search. -/
theorem follows_search {n : Nat} {a : Anchor} (h : (t.search text n).found = some a) :
    a.Follows text (t.search text n).cursor := by
  cases n with
  | zero => cases h
  | succ n => exact follows_of_found? (isBoundary_search t text (n + 1)).1 h

/-- Every node starts between two characters. -/
theorem isBoundary_start_search (t : Tree) (text : Text) (n : Nat) :
    text.isBoundary (t.search text n).anchor.start = true := by
  rw [Search.anchor]
  cases hfound : (t.search text n).found with
  | none => exact (isBoundary_search t text n).1
  | some a => exact (follows_search hfound).start_isBoundary

section starts

variable (t : Tree) (text : Text)

theorem start_le_next_search (n : Nat) :
    (t.search text n).anchor.start ≤ (t.search text n).anchor.next := by
  rw [Search.anchor]
  cases hfound : (t.search text n).found with
  | none => exact Nat.le_refl _
  | some a => exact Nat.le_of_lt (follows_search hfound).start_lt_next

theorem start_search_le_byteSize (n : Nat) :
    (t.search text n).anchor.start ≤ text.byteSize :=
  Nat.le_trans (start_le_next_search t text n)
    (Text.le_byteSize_of_isBoundary (isBoundary_search t text n).2)

theorem cursor_le_start_search_add_one (n : Nat) :
    (t.search text n).cursor ≤ (t.search text n).anchor.start + 1 := by
  rw [Search.anchor]
  cases hfound : (t.search text n).found with
  | none => exact Nat.le_succ _
  | some a => exact (follows_search hfound).cursor_le

/-- A node stands before the place where it was looked for exactly when its key is in quotes
there. -/
theorem start_search_lt_cursor_iff (n : Nat) :
    (t.search text (n + 1)).anchor.start < (t.search text (n + 1)).cursor ↔
      HasQuotedKeyAt text (t.search text (n + 1)).cursor (t.node (n + 1)) := by
  rw [← found?_before_iff (isBoundary_search t text (n + 1)).1, ← found_search_succ, Search.anchor]
  cases (t.search text (n + 1)).found with
  | none => simp
  | some a => simp

/-- **A node starts before the node in front of it exactly when that one was not found and the
key of the node stands in quotes right there.** -/
theorem start_search_succ_lt_iff (n : Nat) :
    (t.search text (n + 1)).anchor.start < (t.search text n).anchor.start ↔
      (t.search text n).found = none ∧
        HasQuotedKeyAt text (t.search text n).cursor (t.node (n + 1)) := by
  cases hfound : (t.search text n).found with
  | none =>
    have hanchor : (t.search text n).anchor
        = ⟨(t.search text n).cursor, (t.search text n).cursor⟩ := by
      rw [Search.anchor, hfound, Option.getD_none]
    have hcursor : (t.search text (n + 1)).cursor = (t.search text n).cursor := by
      rw [cursor_search_succ, hanchor]
    have hback := start_search_lt_cursor_iff t text n
    rw [hcursor] at hback
    rw [hanchor, hback]
    simp
  | some a =>
    have hanchor : (t.search text n).anchor = a := by
      rw [Search.anchor, hfound, Option.getD_some]
    have hcursor : (t.search text (n + 1)).cursor = a.next := by
      rw [cursor_search_succ, hanchor]
    have hnext := (follows_search hfound).start_lt_next
    have hback := cursor_le_start_search_add_one t text (n + 1)
    rw [hanchor]
    simp only [reduceCtorEq, false_and, iff_false]
    omega

/-- A search begins no earlier than the search before it. -/
theorem cursor_search_le_succ (n : Nat) :
    (t.search text n).cursor ≤ (t.search text (n + 1)).cursor := by
  rw [cursor_search_succ, Search.anchor]
  cases hfound : (t.search text n).found with
  | none => exact Nat.le_refl _
  | some a =>
    have hfollows := follows_search hfound
    exact Nat.le_trans hfollows.cursor_le hfollows.start_lt_next

/-- **The cursor never moves back.** -/
theorem cursor_search_mono {n m : Nat} (h : n ≤ m) :
    (t.search text n).cursor ≤ (t.search text m).cursor := by
  induction m, h using Nat.le_induction with
  | base => exact Nat.le_refl _
  | succ m _ ih => exact Nat.le_trans ih (cursor_search_le_succ t text m)

/-- A node starts at most one byte before any node in front of it. -/
theorem start_search_le_add_one {n m : Nat} (h : n ≤ m) :
    (t.search text n).anchor.start ≤ (t.search text m).anchor.start + 1 := by
  rcases Nat.eq_or_lt_of_le h with rfl | hlt
  · exact Nat.le_succ _
  · calc (t.search text n).anchor.start
      _ ≤ (t.search text n).anchor.next := start_le_next_search t text n
      _ = (t.search text (n + 1)).cursor := (cursor_search_succ t text n).symm
      _ ≤ (t.search text m).cursor := cursor_search_mono t text hlt
      _ ≤ (t.search text m).anchor.start + 1 := cursor_le_start_search_add_one t text m

end starts

/-! ## The whole walk -/

/-- The starts of the nodes after a node, by their searches. -/
theorem startsFrom_eq (t : Tree) (text : Text) (count : Nat) : ∀ n, t.size = n + 1 + count →
    startsFrom text (t.search text n).anchor.next (t.nodes.toList.drop (n + 1))
      = .ok ((List.range' (n + 1) count).map fun m => (t.search text m).anchor.start) := by
  induction count with
  | zero =>
    intro n hn
    rw [List.drop_eq_nil_of_le (by rw [Array.length_toList, ← size]; omega)]
    rfl
  | succ count ih =>
    intro n hn
    have hlt : n + 1 < t.nodes.toList.length := by
      rw [Array.length_toList, ← size]
      omega
    have hnode : t.nodes.toList[n + 1] = t.node (n + 1) := by
      rw [node, ← Array.getElem?_toList, List.getElem?_eq_getElem hlt, Option.getD_some]
    have hrest := ih (n + 1) (by omega)
    rw [List.drop_eq_getElem_cons hlt, hnode, startsFrom, ← cursor_search_succ,
      findAnchor?_eq (isBoundary_search t text (n + 1)).1, ← found_search_succ]
    rw [Search.anchor] at hrest
    simp only [bind, Except.bind, hrest, pure, Except.pure]
    rw [List.range'_succ, List.map_cons, Search.anchor]

/-- The starts of all nodes, by their searches. -/
theorem starts_eq (text : Text) (hsize : 0 < t.size) :
    t.starts text = .ok ((List.range t.size).map fun n => (t.search text n).anchor.start) := by
  have hstarts := startsFrom_eq t text (t.size - 1) 0 (by omega)
  have hroot : (t.search text 0).anchor.next = 0 := rfl
  have hrange : List.range t.size = 0 :: List.range' 1 (t.size - 1) := by
    obtain ⟨count, hcount⟩ : ∃ count, t.size = count + 1 := ⟨t.size - 1, by omega⟩
    rw [List.range_eq_range', hcount, List.range'_succ, Nat.add_sub_cancel]
  rw [hroot, Nat.zero_add] at hstarts
  rw [starts, hstarts, hrange]
  rfl

/-- **Locating never fails**, and the starts of the spans are those of the searches. -/
theorem locate_eq (text : Text) (hsize : 0 < t.size) :
    t.locate text = .ok (t.withStarts text.byteSize
      ((List.range t.size).map fun n => (t.search text n).anchor.start).toArray) := by
  rw [locate, starts_eq text hsize]
  rfl

/-! ## Located trees -/

/-- Spans change nothing else of a node. -/
theorem node_withStarts (t : Tree) (textSize : Nat) (starts : Array Nat) (n : Nat) :
    ∃ s, (t.withStarts textSize starts).node n = { t.node n with span := s } ∧
      (n < t.size →
        s = Span.upTo (starts[n]?.getD 0) (starts[t.stop n]?.getD textSize)) := by
  rw [node, withStarts, Array.getElem?_mapIdx, stop, node]
  cases hn : t.nodes[n]? with
  | none =>
    refine ⟨Span.zero, rfl, fun hlt => ?_⟩
    have hge := Array.getElem?_eq_none_iff.mp hn
    rw [size] at hlt
    omega
  | some x => exact ⟨_, rfl, fun _ => rfl⟩

section withStarts

variable (t : Tree) (textSize : Nat) (starts : Array Nat)

@[simp] theorem size_withStarts : (t.withStarts textSize starts).size = t.size := by
  rw [size, withStarts, Array.size_mapIdx, size]

@[simp] theorem name?_withStarts (n : Nat) :
    (t.withStarts textSize starts).name? n = t.name? n := by
  obtain ⟨s, hs, -⟩ := node_withStarts t textSize starts n
  rw [name?, hs, name?]

@[simp] theorem value?_withStarts (n : Nat) :
    (t.withStarts textSize starts).value? n = t.value? n := by
  obtain ⟨s, hs, -⟩ := node_withStarts t textSize starts n
  rw [value?, hs, value?]

@[simp] theorem shape_withStarts (n : Nat) :
    (t.withStarts textSize starts).shape n = t.shape n := by
  obtain ⟨s, hs, -⟩ := node_withStarts t textSize starts n
  rw [shape, hs, shape]

@[simp] theorem parent?_withStarts (n : Nat) :
    (t.withStarts textSize starts).parent? n = t.parent? n := by
  obtain ⟨s, hs, -⟩ := node_withStarts t textSize starts n
  rw [parent?, hs, parent?]

@[simp] theorem children_withStarts (n : Nat) :
    (t.withStarts textSize starts).children n = t.children n := by
  obtain ⟨s, hs, -⟩ := node_withStarts t textSize starts n
  rw [children, hs, children]

@[simp] theorem index_withStarts (n : Nat) :
    (t.withStarts textSize starts).index n = t.index n := by
  obtain ⟨s, hs, -⟩ := node_withStarts t textSize starts n
  rw [index, hs, index]

@[simp] theorem stop_withStarts (n : Nat) :
    (t.withStarts textSize starts).stop n = t.stop n := by
  obtain ⟨s, hs, -⟩ := node_withStarts t textSize starts n
  rw [stop, hs, stop]

theorem span_withStarts {n : Nat} (hn : n < t.size) :
    (t.withStarts textSize starts).span n
      = Span.upTo (starts[n]?.getD 0) (starts[t.stop n]?.getD textSize) := by
  obtain ⟨s, hs, hspan⟩ := node_withStarts t textSize starts n
  rw [span, hs, ← hspan hn]

@[simp] theorem search_withStarts (text : Text) (n : Nat) :
    (t.withStarts textSize starts).search text n = t.search text n := by
  induction n with
  | zero => rfl
  | succ n ih =>
    obtain ⟨s, hs, -⟩ := node_withStarts t textSize starts (n + 1)
    rw [search, search, ih, hs]
    rfl

theorem isPreorder_withStarts (h : t.IsPreorder) :
    (t.withStarts textSize starts).IsPreorder := by
  rw [IsPreorder, size_withStarts]
  exact Forest.congr (parent?_withStarts t textSize starts) (index_withStarts t textSize starts)
    (children_withStarts t textSize starts) (stop_withStarts t textSize starts) h

end withStarts

/-- The tree is that of a value other than null, and its nodes have their spans in the text. -/
def IsLocated (t : Tree) (text : Text) : Prop :=
  ∃ v built, ofValue? v = some built ∧ built.locate text = .ok t

theorem decode_of_error {cause : Yaml.Error} (h : Yaml.Value.ofText text = .error cause) :
    decode text = .error (.yaml cause) := by
  rw [decode, h]
  rfl

theorem decode_of_isNull {v : Yaml.Value} (h : Yaml.Value.ofText text = .ok v)
    (hnull : Outline.isNull v = true) : decode text = .error .emptyDocument := by
  have hbuilt : ofValue? v = none := by rw [ofValue?, if_pos hnull]
  simp only [decode, h, Except.mapError, bind, Except.bind, hbuilt]
  rfl

theorem ofValue?_of_not_isNull {v : Yaml.Value} (hnull : Outline.isNull v = false) :
    ofValue? v = some (ofOutline (Outline.ofValue v)) := by
  rw [ofValue?, hnull]
  rfl

/-- The tree of a value other than null is that of its outline, with the starts of its searches. -/
theorem decode_of_value {v : Yaml.Value} (h : Yaml.Value.ofText text = .ok v)
    (hnull : Outline.isNull v = false) :
    decode text = .ok ((ofOutline (Outline.ofValue v)).withStarts text.byteSize
      ((List.range (ofOutline (Outline.ofValue v)).size).map fun n =>
        ((ofOutline (Outline.ofValue v)).search text n).anchor.start).toArray) := by
  have hlocate := locate_eq text (isPreorder_ofOutline (Outline.ofValue v)).size_pos
  simp only [decode, h, Except.mapError, bind, Except.bind, ofValue?_of_not_isNull hnull, hlocate]

/-- A value other than null has a tree, for its nodes can always be located. -/
theorem exists_decode_of_value {v : Yaml.Value} (h : Yaml.Value.ofText text = .ok v)
    (hnull : Outline.isNull v = false) : ∃ t, decode text = .ok t ∧ t.IsLocated text :=
  ⟨_, decode_of_value h hnull, v, _, ofValue?_of_not_isNull hnull,
    locate_eq text (isPreorder_ofOutline (Outline.ofValue v)).size_pos⟩

/-- A text is no YAML document, or an empty one, or it has a tree, which is located in it. -/
theorem decode_cases (text : Text) :
    (∃ cause, decode text = .error (.yaml cause)) ∨ decode text = .error .emptyDocument ∨
      ∃ t, decode text = .ok t ∧ t.IsLocated text := by
  cases hvalue : Yaml.Value.ofText text with
  | error cause => exact .inl ⟨cause, decode_of_error hvalue⟩
  | ok v =>
    cases hnull : Outline.isNull v with
    | true => exact .inr (.inl (decode_of_isNull hvalue hnull))
    | false => exact .inr (.inr (exists_decode_of_value hvalue hnull))

/-- The tree of a document is located in its text. -/
theorem isLocated_of_decode (h : decode text = .ok t) : t.IsLocated text := by
  rcases decode_cases text with ⟨cause, herror⟩ | herror | ⟨u, hu, hlocated⟩
  · cases herror.symm.trans h
  · cases herror.symm.trans h
  · cases hu.symm.trans h
    exact hlocated

/-- But for their spans, the nodes of the tree of a document are those of the outline of its
value. -/
theorem exists_eq_withStarts_of_decode (h : decode text = .ok t) :
    ∃ v starts, Yaml.Value.ofText text = .ok v ∧
      t = (ofOutline (Outline.ofValue v)).withStarts text.byteSize starts := by
  cases hvalue : Yaml.Value.ofText text with
  | error cause => cases (decode_of_error hvalue).symm.trans h
  | ok v =>
    cases hnull : Outline.isNull v with
    | true => cases (decode_of_isNull hvalue hnull).symm.trans h
    | false => exact ⟨v, _, rfl, Except.ok.inj (h.symm.trans (decode_of_value hvalue hnull))⟩

/-- Decoding never asks for a cut inside a character. -/
theorem exists_decode?_eq (text : Text) : ∃ found, decode? text = .ok found := by
  rcases decode_cases text with ⟨cause, herror⟩ | herror | ⟨t, ht, -⟩
  · exact ⟨none, by rw [decode?, herror]⟩
  · exact ⟨none, by rw [decode?, herror]⟩
  · exact ⟨some t, by rw [decode?, ht]⟩

theorem isLocated_of_decode? (h : decode? text = .ok (some t)) : t.IsLocated text := by
  rw [decode?] at h
  split at h
  · next u hu =>
    cases h
    exact isLocated_of_decode hu
  · cases h
  · cases h

/-- The tree of the first text that has one is the tree of one of them. -/
theorem exists_mem_of_decodeFirst? {texts : List Text} (h : decodeFirst? texts = .ok (some t)) :
    ∃ s ∈ texts, decode? s = .ok (some t) := by
  induction texts with
  | nil => cases h
  | cons s texts ih =>
    rw [decodeFirst?] at h
    cases hs : decode? s with
    | error fault =>
      rw [hs] at h
      cases h
    | ok found =>
      rw [hs] at h
      cases found with
      | some u =>
        cases h
        exact ⟨s, List.mem_cons_self .., hs⟩
      | none =>
        obtain ⟨s', hmem, hs'⟩ := ih h
        exact ⟨s', List.mem_cons_of_mem s hmem, hs'⟩

/-- The tree of a text that is still being typed is located in the text or in a completed one. -/
theorem exists_isLocated_of_decodePartial? (h : decodePartial? text = .ok (some t)) :
    ∃ s, t.IsLocated s := by
  obtain ⟨s, -, hs⟩ := exists_mem_of_decodeFirst? h
  exact ⟨s, isLocated_of_decode? hs⟩

namespace IsLocated

variable (h : t.IsLocated text)
include h

/-- A located tree is that of the outline of a value, with the starts of its searches. -/
theorem exists_eq_withStarts : ∃ v o, Outline.ofValue v = o ∧
    t = (ofOutline o).withStarts text.byteSize
      ((List.range (ofOutline o).size).map fun n =>
        ((ofOutline o).search text n).anchor.start).toArray := by
  obtain ⟨v, built, hbuilt, hlocate⟩ := h
  rw [ofValue?] at hbuilt
  split at hbuilt
  · cases hbuilt
  · rw [← Option.some.inj hbuilt, locate_eq text (isPreorder_ofOutline _).size_pos,
      Except.ok.injEq] at hlocate
    exact ⟨v, Outline.ofValue v, rfl, hlocate.symm⟩

theorem isPreorder : t.IsPreorder := by
  obtain ⟨_, o, -, rfl⟩ := h.exists_eq_withStarts
  exact isPreorder_withStarts _ _ _ (isPreorder_ofOutline o)

/-- A node starts where its search says. -/
theorem start_span {n : Nat} (hn : n < t.size) :
    (t.span n).start = (t.search text n).anchor.start := by
  obtain ⟨_, o, -, rfl⟩ := h.exists_eq_withStarts
  rw [size_withStarts] at hn
  rw [search_withStarts, span_withStarts _ _ _ hn]
  simp [Span.upTo, hn]

/-- A node ends where the next node starts that is not below it, or with the text, but not before
its own start. -/
theorem stop_span {n : Nat} (hn : n < t.size) :
    (t.span n).stop = max (if t.stop n < t.size then (t.span (t.stop n)).start else text.byteSize)
      (t.span n).start := by
  have hstart := h.start_span hn
  have hnext := fun hlt : t.stop n < t.size => h.start_span hlt
  obtain ⟨_, o, -, rfl⟩ := h.exists_eq_withStarts
  simp only [size_withStarts, stop_withStarts, search_withStarts] at hn hstart hnext ⊢
  rw [hstart, span_withStarts _ _ _ hn]
  split
  · next hlt => simp [Span.upTo, hn, hlt, hnext hlt]
  · next hge => simp [Span.upTo, hn, hge]

end IsLocated

end WorkflowLens.Tree
