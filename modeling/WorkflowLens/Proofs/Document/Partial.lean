import WorkflowLens.Proofs.Tree.Links
import WorkflowLens.Proofs.Tree.Walk

/-!
# The text behind the spans of a partial tree

If a text does not decode, its last line is completed, and the tree is that of the completed text.
So the spans are offsets into a text that the caller does not have.  With closing quotes and
brackets this text is longer than the given one, and the root ends outside the given one.  With a
colon in the place of the final blanks it is longer as well, unless the first of these
blanks is there to make room for the colon.

* `IsLocated.spansIn`: the spans of a located tree lie in its text, between characters.
* `cases_of_decodePartial?`: the text or the completed texts whose tree a partial tree can be.
* `spansIn_iff_of_decodePartial?`: exactly when the spans lie in the given text.
-/

namespace WorkflowLens

/-! ## Boundaries behind a piece of text -/

namespace Text

variable {before s t : Text} {n : Nat}

theorem isBoundary_append_add (before t : Text) (n : Nat) :
    (before ++ t).isBoundary (before.byteSize + n) = t.isBoundary n := by
  rw [Bool.eq_iff_iff, isBoundary_iff, isBoundary_iff]
  constructor
  · rintro ⟨u, v, huv, hsize⟩
    rcases List.append_eq_append_iff.mp huv with ⟨w, rfl, rfl⟩ | ⟨w, rfl, rfl⟩
    · rw [byteSize_append] at hsize
      exact ⟨w, v, rfl, Nat.add_left_cancel hsize⟩
    · -- the offset is not before the end of the piece
      cases w with
      | nil =>
        rw [List.append_nil] at hsize
        exact ⟨[], t, rfl, by rw [byteSize_nil]; omega⟩
      | cons c w =>
        have hpos := c.utf8Size_pos
        rw [byteSize_append, byteSize_cons] at hsize
        omega
  · rintro ⟨u, v, rfl, rfl⟩
    exact ⟨before ++ u, v, (List.append_assoc ..).symm, byteSize_append before u⟩

theorem isBoundary_one_iff : t.isBoundary 1 = true ↔ ∃ c u, t = c :: u ∧ c.utf8Size = 1 := by
  rw [isBoundary_iff]
  constructor
  · rintro ⟨s, u, rfl, hsize⟩
    cases s with
    | nil => cases hsize
    | cons c s =>
      have hpos := c.utf8Size_pos
      rw [byteSize_cons] at hsize
      exact ⟨c, s ++ u, rfl, by omega⟩
  · rintro ⟨c, u, rfl, hsize⟩
    exact ⟨[c], u, rfl, hsize⟩

/-- The offsets up to the end of a piece are boundaries whatever stands behind it. -/
theorem isBoundary_append_of_isBoundary (h : before.isBoundary n = true) (t : Text) :
    (before ++ t).isBoundary n = true := by
  obtain ⟨u, v, rfl, rfl⟩ := isBoundary_iff.mp h
  rw [List.append_assoc]
  exact isBoundary_append u (v ++ t)

/-- A character of one byte may stand in the place of another one. -/
theorem isBoundary_append_cons {c d : Char} (h : (before ++ [c]).isBoundary n = true)
    (hsize : c.utf8Size = d.utf8Size) (t : Text) : (before ++ d :: t).isBoundary n = true := by
  obtain ⟨u, v, huv, rfl⟩ := isBoundary_iff.mp h
  rcases List.eq_nil_or_concat' v with rfl | ⟨w, e, rfl⟩
  · rw [List.append_nil] at huv
    have hd := isBoundary_append (before ++ [d]) t
    rw [List.append_assoc, List.singleton_append] at hd
    rw [← huv, byteSize_append, byteSize_cons, byteSize_nil, hsize]
    rw [byteSize_append, byteSize_cons, byteSize_nil] at hd
    exact hd
  · rw [← List.append_assoc] at huv
    obtain ⟨rfl, -⟩ := List.append_inj' huv rfl
    exact isBoundary_append_of_isBoundary (isBoundary_append u w) (d :: t)

theorem trimEnd_append (h : trimEnd t ≠ []) (s : Text) : trimEnd (s ++ t) = s ++ trimEnd t := by
  rw [trimEnd, dropEndWhile, ne_eq, List.reverse_eq_nil_iff] at h
  rw [trimEnd, dropEndWhile, List.reverse_append, List.dropWhile_append,
    if_neg (fun hempty => h (List.isEmpty_iff.mp hempty)), List.reverse_append,
    List.reverse_reverse, trimEnd, dropEndWhile]

end Text

/-- A span of a text starts and ends in it, between two characters. -/
def Span.IsIn (s : Span) (text : Text) : Prop :=
  text.isBoundary s.start = true ∧ text.isBoundary s.stop = true

namespace Tree

variable {t : Tree} {text : Text}

/-! ## Spans in a text -/

/-- All nodes stand in a text. -/
def SpansIn (t : Tree) (text : Text) : Prop := ∀ n < t.size, (t.span n).IsIn text

/-- **The spans of a located tree lie in its text.** -/
theorem IsLocated.spansIn (h : t.IsLocated text) : t.SpansIn text := by
  have hstart : ∀ n < t.size, text.isBoundary (t.span n).start = true := by
    intro n hn
    rw [h.start_span hn]
    exact isBoundary_start_search t text n
  intro n hn
  refine ⟨hstart n hn, ?_⟩
  have hend : text.isBoundary
      (if t.stop n < t.size then (t.span (t.stop n)).start else text.byteSize) = true := by
    split
    · next hlt => exact hstart _ hlt
    · have hsize := Text.isBoundary_append text []
      rwa [List.append_nil] at hsize
  rw [h.stop_span hn]
  rcases Nat.le_total (t.span n).start
    (if t.stop n < t.size then (t.span (t.stop n)).start else text.byteSize) with hle | hle
  · rw [Nat.max_eq_left hle]
    exact hend
  · rw [Nat.max_eq_right hle]
    exact hstart n hn

/-- The root ends with the text. -/
theorem IsLocated.stop_span_root (h : t.IsLocated text) :
    (t.span root).stop = text.byteSize := by
  have hroot : root < t.size := h.isPreorder.size_pos
  rw [h.stop_span hroot, h.isPreorder.stop_root, if_neg (Nat.lt_irrefl _), h.start_span hroot]
  exact Nat.max_eq_left (start_search_le_byteSize t text root)

/-! ## Completed texts -/

/-- What closes everything that is open at the end of the last line of a text. -/
def closingOf (text : Text) : Text :=
  (OpenParts.ofLine (text.takeEndWhile fun c => c != '\n')).closing

/-- A completed line is the line with everything closed, or with a colon for its final blanks. -/
theorem cases_of_mem_repairs {line s : Text} (h : s ∈ repairs line) :
    ((OpenParts.ofLine line).closing ≠ [] ∧ s = line ++ (OpenParts.ofLine line).closing) ∨
      (Text.trimEnd line ≠ [] ∧ s = Text.trimEnd line ++ [':']) := by
  rw [repairs, List.mem_append, Option.mem_toList, Option.mem_toList] at h
  rcases h with hclose | hkey
  · left
    rw [closeLine?] at hclose
    split at hclose
    · cases hclose
    · next hne =>
      exact ⟨fun hnil => hne (by rw [hnil]; rfl), (Option.some.inj hclose).symm⟩
  · right
    rw [keyLine?] at hkey
    split at hkey
    · cases hkey
    · next hword =>
      refine ⟨fun hnil => hword ?_, (Option.some.inj hkey).symm⟩
      rw [hnil]
      rfl

/-- A partial tree is that of the text, of the text with everything closed, or of the text with a
colon for its final blanks. -/
theorem cases_of_decodePartial? (h : decodePartial? text = .ok (some t)) :
    decode? text = .ok (some t) ∨
      (closingOf text ≠ [] ∧ decode? (text ++ closingOf text) = .ok (some t)) ∨
      decode? (Text.trimEnd text ++ [':']) = .ok (some t) := by
  obtain ⟨s, hmem, hs⟩ := exists_mem_of_decodeFirst? h
  rcases List.mem_cons.mp hmem with rfl | hrepair
  · exact .inl hs
  · right
    obtain ⟨line, hline, rfl⟩ := List.mem_map.mp hrepair
    have hsplit := Text.dropEndWhile_append_takeEndWhile (fun c => c != '\n') text
    rcases cases_of_mem_repairs hline with ⟨hclosing, rfl⟩ | ⟨htrim, rfl⟩
    · left
      rw [← List.append_assoc, hsplit] at hs
      exact ⟨hclosing, hs⟩
    · right
      rw [← List.append_assoc, ← Text.trimEnd_append htrim, hsplit] at hs
      exact hs

/-- What closes the part that a character opens takes no more bytes than the character. -/
theorem byteSize_closing_next_le (o : OpenParts) (c : Char) :
    (o.next c).closing.byteSize ≤ o.closing.byteSize + c.utf8Size := by
  have hpos := c.utf8Size_pos
  have hbracket : ']'.utf8Size = 1 := rfl
  have hbrace : '\x7d'.utf8Size = 1 := rfl
  obtain ⟨quote, closers⟩ := o
  cases quote with
  | some q =>
    simp only [OpenParts.next]
    split <;> simp only [OpenParts.closing, Option.toList_some, Option.toList_none,
      List.nil_append, List.singleton_append, Text.byteSize_cons] <;> omega
  | none =>
    have hdrop : Text.byteSize (closers.drop 1) ≤ Text.byteSize closers := by
      cases closers with
      | nil => exact Nat.le_refl _
      | cons d closers => exact Nat.le_add_left _ _
    simp only [OpenParts.next]
    repeat' split
    all_goals
      simp only [OpenParts.closing, Option.toList_some, Option.toList_none, List.nil_append,
        List.singleton_append, Text.byteSize_cons]
      omega

/-- Closing everything at most doubles a text. -/
theorem byteSize_closingOf_le (text : Text) : (closingOf text).byteSize ≤ text.byteSize := by
  have hrun : ∀ (line : Text) (o : OpenParts),
      (line.foldl OpenParts.next o).closing.byteSize ≤ o.closing.byteSize + line.byteSize := by
    intro line
    induction line with
    | nil => exact fun o => Nat.le_add_right _ _
    | cons c line ih =>
      intro o
      have hnext := byteSize_closing_next_le o c
      have hrest := ih (o.next c)
      rw [List.foldl_cons, Text.byteSize_cons]
      omega
  have hline := hrun (text.takeEndWhile fun c => c != '\n') OpenParts.none
  have hsplit := congrArg Text.byteSize
    (Text.dropEndWhile_append_takeEndWhile (fun c => c != '\n') text)
  rw [Text.byteSize_append] at hsplit
  have hnone : OpenParts.none.closing.byteSize = 0 := rfl
  rw [closingOf, OpenParts.ofLine]
  omega

/-- **A partial tree is that of the text or of a completed text, and its spans lie in that one.
They lie in the given text exactly if the text decodes as it stands, or if it has final blanks, the
first of which takes one byte, and a colon in their place makes it decode.** -/
theorem spansIn_iff_of_decodePartial? (h : decodePartial? text = .ok (some t)) :
    (∃ s, decode? s = .ok (some t) ∧ t.SpansIn s ∧
      (s = text ∨ (closingOf text ≠ [] ∧ s = text ++ closingOf text) ∨
        s = Text.trimEnd text ++ [':'])) ∧
    (t.SpansIn text ↔ decode? text = .ok (some t) ∨
      ∃ c blanks, text = Text.trimEnd text ++ c :: blanks ∧ c.utf8Size = 1 ∧
        decode? (Text.trimEnd text ++ [':']) = .ok (some t)) := by
  have hspans : ∀ {s}, decode? s = .ok (some t) → t.SpansIn s :=
    fun hs => (isLocated_of_decode? hs).spansIn
  have hcases := cases_of_decodePartial? h
  refine ⟨?_, fun hin => ?_, ?_⟩
  · rcases hcases with hs | ⟨hclosing, hs⟩ | hs
    · exact ⟨_, hs, hspans hs, .inl rfl⟩
    · exact ⟨_, hs, hspans hs, .inr (.inl ⟨hclosing, rfl⟩)⟩
    · exact ⟨_, hs, hspans hs, .inr (.inr rfl)⟩
  · -- the root ends with the completed text, which has to be no longer than the given one
    rcases hcases with hs | ⟨hclosing, hs⟩ | hs
    · exact .inl hs
    · have hlocated := isLocated_of_decode? hs
      have hroot := (hin root hlocated.isPreorder.size_pos).2
      rw [hlocated.stop_span_root] at hroot
      have hle := Text.le_byteSize_of_isBoundary hroot
      have hpos := Text.byteSize_pos hclosing
      rw [Text.byteSize_append] at hle
      omega
    · right
      have hlocated := isLocated_of_decode? hs
      have hroot := (hin root hlocated.isPreorder.size_pos).2
      rw [hlocated.stop_span_root, Text.byteSize_append] at hroot
      have hsplit := Text.dropEndWhile_append_takeEndWhile Text.isBlank text
      rw [← Text.trimEnd] at hsplit
      generalize Text.trimEnd text = front at hsplit hroot hs
      rw [← hsplit, Text.isBoundary_append_add] at hroot
      obtain ⟨c, blanks, hblanks, hsize⟩ := Text.isBoundary_one_iff.mp hroot
      exact ⟨c, blanks, by rw [← hsplit, hblanks], hsize, hs⟩
  · rintro (hs | ⟨c, blanks, htext, hsize, hs⟩)
    · exact hspans hs
    · intro n hn
      rw [htext]
      exact ⟨Text.isBoundary_append_cons (hspans hs n hn).1 hsize.symm blanks,
        Text.isBoundary_append_cons (hspans hs n hn).2 hsize.symm blanks⟩

/-! ### Two texts that do not decode

In one of them the last line is a word and a blank, and in the other one a bracket is open.
-/

/-- The tree of the text `a: 1` with a word and a blank on the next line. -/
def wordTree : Tree :=
  ⟨#[⟨none, none, .mapping, none, [1, 2], 0, 3, Span.upTo 0 7⟩,
    ⟨some "a", some "1", .scalar, some 0, [], 0, 2, Span.upTo 0 5⟩,
    ⟨some "b", none, .scalar, some 0, [], 1, 3, Span.upTo 5 7⟩]⟩

/-- The blank is replaced by a colon, so the spans lie in the given text. -/
theorem spansIn_wordTree : decodePartial? "a: 1\nb ".toList = .ok (some wordTree) ∧
    decode? "a: 1\nb ".toList = .ok none ∧ wordTree.SpansIn "a: 1\nb ".toList := by
  have hpartial : decodePartial? "a: 1\nb ".toList = .ok (some wordTree) := by decide +kernel
  refine ⟨hpartial, by decide +kernel, (spansIn_iff_of_decodePartial? hpartial).2.mpr (.inr ?_)⟩
  exact ⟨' ', [], by decide +kernel, rfl, by decide +kernel⟩

/-- The tree of the text `a: [b` with its bracket closed. -/
def bracketTree : Tree :=
  ⟨#[⟨none, none, .mapping, none, [1], 0, 3, Span.upTo 0 6⟩,
    ⟨some "a", none, .sequence, some 0, [2], 0, 3, Span.upTo 0 6⟩,
    ⟨none, some "b", .scalar, some 1, [], 0, 3, Span.upTo 4 6⟩]⟩

/-- **With the closing bracket the text has six bytes, and all spans end there, but the given text
has five.** -/
theorem decodePartial?_openBracket :
    decodePartial? "a: [b".toList = .ok (some bracketTree) ∧
      Text.byteSize "a: [b".toList = 5 ∧ (∀ n < bracketTree.size, (bracketTree.span n).stop = 6) ∧
      ¬ bracketTree.SpansIn "a: [b".toList := by
  refine ⟨by decide +kernel, rfl, by decide +kernel, fun hin => ?_⟩
  exact absurd (hin root (by decide +kernel)).2 (by decide +kernel)

end Tree

end WorkflowLens
