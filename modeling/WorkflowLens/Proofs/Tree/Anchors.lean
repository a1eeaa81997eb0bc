import Mathlib.Data.List.TakeWhile
import WorkflowLens.Proofs.Text.Places
import WorkflowLens.Tree.Locate

/-!
# How far a search for a node can go back

The nodes of a tree are looked for one after the other, each from the place where the search
before it ended.  Three kinds of searches find an anchor, and two of them, for scalars and for item
markers, find nothing before the place where they begin.  The third, for keys, can: the name
is found at or after that place, but the anchor of a name in quotes is its opening quote,
which is one byte earlier.

* `found?`, `findAnchor?_eq`: a search that begins at a boundary never fails.
* `Anchor.Follows`, `follows_of_found?`: an anchor is at most one byte before the search, and the
  next search begins after it, at a boundary again.
* `QuotedKeyAt`, `found?_before_iff`: the anchor is before the search exactly when the key that is
  looked for stands right there, behind its opening quote.
-/

namespace WorkflowLens.Tree

/-! ## Keys -/

/-- Whether the end of a text lies in a comment. -/
def endsInComment (before : Text) : Bool :=
  hasComment none none (before.takeEndWhile fun c => c != '\n')

/-- A name between two texts is a key: it is in quotes on both sides or on neither, outside
comments, and a colon follows after blanks. -/
structure IsKey (before after : Text) (quote : Option Char) (blanks rest : Text) : Prop where
  mayPrecede : before.getLast?.all mayPrecedeKey = true
  quote_eq : before.getLast?.filter isQuote = quote
  noComment : endsInComment before = false
  after_eq : after = quote.toList ++ blanks ++ ':' :: rest
  blank : ∀ c ∈ blanks, c = ' ' ∨ c = '\t'

/-- The anchor of a key: its opening quote if it has one, and the place after its colon. -/
def keyAnchor (before name : Text) (quote : Option Char) (blanks : Text) : Anchor :=
  ⟨before.byteSize - quote.toList.length,
    Text.byteSize (before ++ name ++ quote.toList ++ blanks ++ [':'])⟩

theorem utf8Size_colon : ':'.utf8Size = 1 := rfl

theorem isInComment_append (before after : Text) :
    isInComment (before ++ after) before.byteSize = .ok (endsInComment before) := by
  rw [isInComment, Text.cut_append]
  rfl

/-- The search for a key at a place: whether one may begin there, then the closing quote, if the
name is behind an opening one, and the colon. -/
theorem keyAt?_append (before name after : Text) :
    keyAt? (before ++ (name ++ after)) name before.byteSize = .ok (
      if !before.getLast?.all mayPrecedeKey || endsInComment before then none
      else
        (Text.stripPrefix? (before.getLast?.filter isQuote).toList after).bind fun rest =>
          if !Text.startsWith [':'] (rest.dropWhile fun c => c == ' ' || c == '\t') then none
          else some ⟨if (before.getLast?.filter isQuote).isSome then before.byteSize - 1
              else before.byteSize,
            Text.byteSize (before ++ (name ++ after))
              - Text.byteSize (rest.dropWhile fun c => c == ' ' || c == '\t') + 1⟩) := by
  have hcut : Text.cut (before ++ (name ++ after)) (before.byteSize + name.byteSize)
      = .ok (before ++ name, after) := by
    rw [← List.append_assoc, ← Text.byteSize_append, Text.cut_append]
  simp only [keyAt?, Text.cut_append, isInComment_append, hcut, bind, Except.bind, pure,
    Except.pure]
  generalize before.getLast?.filter isQuote = quote
  split
  · rfl
  · cases quote with
    | none =>
      simp only [Option.toList_none, Text.stripPrefix?, Option.bind_some]
      split <;> rfl
    | some q =>
      simp only [Option.toList_some]
      cases Text.stripPrefix? [q] after with
      | none => rfl
      | some rest =>
        simp only [Option.bind_some]
        split <;> rfl

/-- A key that is found is a key, and its anchor is as it should be. -/
theorem isKey_of_keyAt? {before name after : Text} {a : Anchor}
    (h : keyAt? (before ++ (name ++ after)) name before.byteSize = .ok (some a)) :
    ∃ quote blanks rest, IsKey before after quote blanks rest ∧
      a = keyAnchor before name quote blanks := by
  rw [keyAt?_append, Except.ok.injEq] at h
  split at h
  · cases h
  next hbegin =>
  obtain ⟨unquoted, hunquoted, h⟩ := Option.bind_eq_some_iff.mp h
  split at h
  · cases h
  next hcolon =>
  rw [Text.stripPrefix?_eq_some_iff] at hunquoted
  simp only [Bool.or_eq_true, Bool.not_eq_true', not_or, Bool.not_eq_false] at hbegin hcolon
  obtain ⟨rest, hrest⟩ := Text.startsWith_iff.mp hcolon
  rw [List.singleton_append] at hrest
  have hsplit := List.takeWhile_append_dropWhile
    (p := fun c => c == ' ' || c == '\t') (l := unquoted)
  rw [← hrest] at hsplit h
  generalize hblanks : unquoted.takeWhile (fun c => c == ' ' || c == '\t') = blanks at hsplit
  generalize hquote : before.getLast?.filter isQuote = quote at hunquoted h
  refine ⟨quote, blanks, rest, ⟨hbegin.1, hquote, by simpa using hbegin.2, ?_, ?_⟩, ?_⟩
  · rw [hunquoted, List.append_assoc, hsplit]
  · intro c hc
    rw [← hblanks] at hc
    simpa using List.mem_takeWhile_imp hc
  · rw [← Option.some.inj h, hunquoted, ← hsplit, keyAnchor]
    congr 1
    · cases quote with
      | none => rfl
      | some q => rfl
    · simp only [Text.byteSize_append, Text.byteSize_cons, Text.byteSize_nil]
      have hone := utf8Size_colon
      omega

theorem keyAt?_of_isKey {before name after : Text} {quote : Option Char} {blanks rest : Text}
    (h : IsKey before after quote blanks rest) :
    keyAt? (before ++ (name ++ after)) name before.byteSize
      = .ok (some (keyAnchor before name quote blanks)) := by
  have hafter : Text.stripPrefix? quote.toList after = some (blanks ++ ':' :: rest) := by
    rw [Text.stripPrefix?_eq_some_iff, h.after_eq, List.append_assoc]
  have hdrop : (blanks ++ ':' :: rest).dropWhile (fun c => c == ' ' || c == '\t')
      = ':' :: rest := by
    rw [List.dropWhile_append_of_pos (fun c hc => by simpa using h.blank c hc)]
    rfl
  have hcolon : Text.startsWith [':'] (':' :: rest) = true :=
    Text.startsWith_iff.mpr ⟨rest, rfl⟩
  rw [keyAt?_append, h.mayPrecede, h.noComment, h.quote_eq, hafter, h.after_eq]
  simp only [Bool.not_true, Bool.or_self, Bool.false_eq_true, if_false, Option.bind_some, hdrop,
    hcolon, keyAnchor]
  congr 3
  · cases quote with
    | none => rfl
    | some q => rfl
  · simp only [Text.byteSize_append, Text.byteSize_cons, Text.byteSize_nil]
    have hone := utf8Size_colon
    omega

/-- The key `name` stands at an offset in quotes, and its opening quote is the character before
the offset. -/
def QuotedKeyAt (text : Text) (offset : Nat) (name : Text) : Prop :=
  name ≠ [] ∧ ∃ before after q blanks rest, text = before ++ (name ++ after) ∧
    before.byteSize = offset ∧ IsKey before after (some q) blanks rest

/-- Before a name behind a quote there is at least the quote. -/
theorem IsKey.byteSize_pos {before after : Text} {q : Char} {blanks rest : Text}
    (h : IsKey before after (some q) blanks rest) : 0 < before.byteSize := by
  apply Text.byteSize_pos
  rintro rfl
  cases h.quote_eq

/-! ## Searches -/

/-- What is owed by the anchor that a search from `cursor` finds: it is at most one byte before
the search, and the next search begins after it.  Both offsets lie between two characters. -/
structure Anchor.Follows (text : Text) (cursor : Nat) (a : Anchor) : Prop where
  cursor_le : cursor ≤ a.start + 1
  start_lt_next : a.start < a.next
  start_isBoundary : text.isBoundary a.start = true
  next_isBoundary : text.isBoundary a.next = true

/-- Quotes take one byte, so the anchor of a key is the place before its quote, if it has one. -/
theorem IsKey.exists_append {before after : Text} {quote : Option Char} {blanks rest : Text}
    (h : IsKey before after quote blanks rest) (name : Text) :
    ∃ front, before = front ++ quote.toList ∧
      (keyAnchor before name quote blanks).start = Text.byteSize front := by
  cases hq : quote with
  | none =>
    simp only [keyAnchor, Option.toList_none, List.length_nil]
    exact ⟨before, (List.append_nil before).symm, rfl⟩
  | some q =>
    obtain ⟨hlast, hquote⟩ := Option.filter_eq_some_iff.mp (h.quote_eq.trans hq)
    obtain ⟨front, rfl⟩ := List.getLast?_eq_some_iff.mp hlast
    have hone : q.utf8Size = 1 := by
      rw [isQuote, Bool.or_eq_true, beq_iff_eq, beq_iff_eq] at hquote
      rcases hquote with rfl | rfl <;> rfl
    refine ⟨front, rfl, ?_⟩
    simp only [keyAnchor, Text.byteSize_append, Text.byteSize_cons, Text.byteSize_nil,
      Option.toList_some, List.length_singleton]
    omega

theorem isBoundary_keyAnchor {before after : Text} {quote : Option Char} {blanks rest : Text}
    (h : IsKey before after quote blanks rest) (name : Text) :
    (before ++ (name ++ after)).isBoundary (keyAnchor before name quote blanks).start = true := by
  obtain ⟨front, hbefore, hstart⟩ := h.exists_append name
  rw [hstart, hbefore, List.append_assoc]
  exact Text.isBoundary_append front _

/-- The anchor of a key is the beginning of its name, or the opening quote right before. -/
theorem follows_keyAnchor {before name after : Text} {quote : Option Char} {blanks rest : Text}
    {cursor : Nat} (h : IsKey before after quote blanks rest) (hcursor : cursor ≤ before.byteSize) :
    (keyAnchor before name quote blanks).Follows (before ++ (name ++ after)) cursor := by
  refine ⟨?_, ?_, isBoundary_keyAnchor h name, ?_⟩
  · cases quote with
    | none =>
      simp only [keyAnchor, Option.toList_none, List.length_nil]
      omega
    | some q =>
      simp only [keyAnchor, Option.toList_some, List.length_singleton]
      omega
  · simp only [keyAnchor, Text.byteSize_append, Text.byteSize_cons]
    have hone := utf8Size_colon
    omega
  · have htext : before ++ (name ++ after)
        = (before ++ name ++ quote.toList ++ blanks ++ [':']) ++ rest := by
      simp only [h.after_eq, List.append_assoc, List.singleton_append]
    rw [htext]
    exact Text.isBoundary_append _ _

/-- The first key among some places where its name stands. -/
theorem firstKey?_spec {text name : Text} : ∀ {starts : List Nat},
    (∀ s ∈ starts, ∃ before after, text = before ++ (name ++ after) ∧ s = before.byteSize) →
    ∃ found, firstKey? text name starts = .ok found ∧
      ∀ a, found = some a → ∃ s ∈ starts, keyAt? text name s = .ok (some a)
  | [], _ => ⟨none, rfl, by simp⟩
  | s :: starts, h => by
    obtain ⟨found, hfound, hspec⟩ := firstKey?_spec fun s' hs' => h s' (List.mem_cons_of_mem s hs')
    obtain ⟨before, after, htext, hs⟩ := h s (List.mem_cons_self ..)
    obtain ⟨here, hhere⟩ : ∃ here, keyAt? text name s = .ok here := by
      rw [htext, hs]
      exact ⟨_, keyAt?_append before name after⟩
    rw [firstKey?, hhere]
    cases here with
    | some a =>
      refine ⟨some a, rfl, fun b hb => ⟨s, List.mem_cons_self .., ?_⟩⟩
      rw [← hb, hhere]
    | none =>
      refine ⟨found, hfound, fun b hb => ?_⟩
      obtain ⟨s', hs', hkey⟩ := hspec b hb
      exact ⟨s', List.mem_cons_of_mem s hs', hkey⟩

theorem findKey?_append {name : Text} (hname : name ≠ []) (before after : Text) :
    findKey? (before ++ after) before.byteSize name
      = firstKey? (before ++ after) name
          (Text.occurrencesFrom name before.byteSize 0 after) := by
  rw [findKey?, Text.cut_append]
  simp [hname, bind, Except.bind]

theorem findKey?_spec {text name : Text} {cursor : Nat} (h : text.isBoundary cursor = true) :
    ∃ found, findKey? text cursor name = .ok found ∧ ∀ a, found = some a →
      a.Follows text cursor ∧ (a.start < cursor → QuotedKeyAt text cursor name) := by
  by_cases hname : name = []
  · exact ⟨none, by rw [findKey?, hname]; rfl, by simp⟩
  obtain ⟨before, after, rfl, rfl⟩ := Text.isBoundary_iff.mp h
  have hplaces : ∀ s ∈ Text.occurrencesFrom name before.byteSize 0 after,
      ∃ before' after', before ++ after = before' ++ (name ++ after') ∧
        s = before'.byteSize ∧ before.byteSize ≤ s := by
    intro s hs
    obtain ⟨between, after', hafter, hs⟩ := Text.occurrencesFrom_sound hs
    refine ⟨before ++ between, after', ?_, by rw [hs, Text.byteSize_append], by omega⟩
    simp only [hafter, List.append_assoc]
  obtain ⟨found, hfound, hspec⟩ := firstKey?_spec fun s hs => by
    obtain ⟨before', after', htext, hs', -⟩ := hplaces s hs
    exact ⟨before', after', htext, hs'⟩
  refine ⟨found, ?_, fun a ha => ?_⟩
  · rw [findKey?_append hname, hfound]
  · obtain ⟨s, hs, hkey⟩ := hspec a ha
    obtain ⟨before', after', htext, rfl, hle⟩ := hplaces s hs
    rw [htext] at hkey
    obtain ⟨quote, blanks, rest, hisKey, rfl⟩ := isKey_of_keyAt? hkey
    rw [htext]
    refine ⟨follows_keyAnchor hisKey hle, fun hlt => ⟨hname, before', after', ?_⟩⟩
    cases quote with
    | none =>
      simp only [keyAnchor, Option.toList_none, List.length_nil] at hlt
      omega
    | some q =>
      simp only [keyAnchor, Option.toList_some, List.length_singleton] at hlt
      exact ⟨q, blanks, rest, rfl, by omega, hisKey⟩

/-- A key that stands behind its opening quote right where the search begins is found, and its
anchor is before the search. -/
theorem findKey?_of_quotedKeyAt {text name : Text} {cursor : Nat}
    (h : QuotedKeyAt text cursor name) :
    ∃ a, findKey? text cursor name = .ok (some a) ∧ a.start < cursor := by
  obtain ⟨hname, before, after, q, blanks, rest, rfl, rfl, hisKey⟩ := h
  have hpos := hisKey.byteSize_pos
  refine ⟨keyAnchor before name (some q) blanks, ?_, ?_⟩
  · have hfirst := @Text.head?_occurrencesFrom _ after hname before.byteSize
    obtain ⟨starts, hstarts⟩ : ∃ starts, Text.occurrencesFrom name before.byteSize 0
        (name ++ after) = before.byteSize :: starts := List.head?_eq_some_iff.mp hfirst
    rw [findKey?_append hname, hstarts, firstKey?, keyAt?_of_isKey hisKey]
    rfl
  · simp only [keyAnchor, Option.toList_some, List.length_singleton]
    omega

/-- A piece of text found after the cursor makes an anchor that is not before it. -/
theorem follows_of_piece {before between piece after : Text} (hpiece : piece ≠ []) :
    Anchor.Follows (before ++ (between ++ piece ++ after)) before.byteSize
      ⟨before.byteSize + between.byteSize,
        before.byteSize + between.byteSize + piece.byteSize⟩ := by
  have hpos := Text.byteSize_pos hpiece
  have hstart := Text.isBoundary_append (before ++ between) (piece ++ after)
  have hnext := Text.isBoundary_append (before ++ between ++ piece) after
  simp only [Text.byteSize_append, List.append_assoc, Nat.add_assoc] at hstart hnext ⊢
  exact ⟨by dsimp only; omega, by dsimp only; omega, hstart, hnext⟩

theorem findScalar?_spec {text value : Text} {cursor : Nat} (h : text.isBoundary cursor = true) :
    ∃ found, findScalar? text cursor value = .ok found ∧
      ∀ a, found = some a → a.Follows text cursor ∧ cursor ≤ a.start := by
  obtain ⟨before, after, rfl, rfl⟩ := Text.isBoundary_iff.mp h
  rw [findScalar?, Text.cut_append]
  generalize Text.trim (value.takeWhile fun c => c != '\n') = line
  by_cases hline : line = []
  · exact ⟨none, by rw [hline]; rfl, by simp⟩
  refine ⟨(Text.find? line after).map fun distance =>
    ⟨before.byteSize + distance, before.byteSize + distance + line.byteSize⟩, ?_, fun a ha => ?_⟩
  · simp [hline, bind, Except.bind, pure, Except.pure]
  · obtain ⟨distance, hfind, rfl⟩ := Option.map_eq_some_iff.mp ha
    obtain ⟨between, after', rfl, rfl⟩ := Text.find?_sound hfind
    exact ⟨follows_of_piece hline, by dsimp only; omega⟩

/-- A marker that is found stands in the text. -/
theorem markerIn?_sound {opener : Char} {a : Anchor} : ∀ {t : Text} {offset : Nat}
    {last : Option Char}, markerIn? opener offset last t = some a →
    ∃ between c after, t = between ++ [c] ++ after ∧
      a = ⟨offset + Text.byteSize between,
        offset + Text.byteSize between + Text.byteSize [c]⟩
  | [], _, _, h => by
    rw [markerIn?] at h
    cases h
  | c :: t, offset, last, h => by
    rw [markerIn?] at h
    split at h
    · exact ⟨[], c, t, rfl, (Option.some.inj h).symm⟩
    · obtain ⟨between, c', after, ht, ha⟩ := markerIn?_sound h
      refine ⟨c :: between, c', after, by rw [ht]; rfl, ?_⟩
      rw [ha, Text.byteSize_cons c between, ← Nat.add_assoc]

theorem findMarker?_append {opener : Char} (before after : Text) :
    findMarker? (before ++ after) before.byteSize opener
      = .ok (markerIn? opener before.byteSize before.getLast? after) := by
  rw [findMarker?, Text.cut_append]
  rfl

theorem findMarker?_spec {text : Text} {cursor : Nat} {opener : Char}
    (h : text.isBoundary cursor = true) :
    ∃ found, findMarker? text cursor opener = .ok found ∧
      ∀ a, found = some a → a.Follows text cursor ∧ cursor ≤ a.start := by
  obtain ⟨before, after, rfl, rfl⟩ := Text.isBoundary_iff.mp h
  refine ⟨_, findMarker?_append before after, fun a ha => ?_⟩
  obtain ⟨between, c, after', rfl, rfl⟩ := markerIn?_sound ha
  exact ⟨follows_of_piece (List.cons_ne_nil c []), by dsimp only; omega⟩

/-- The key of a node stands at an offset in quotes, and its opening quote is the character before
the offset. -/
def HasQuotedKeyAt (text : Text) (offset : Nat) (n : Node) : Prop :=
  ∃ name, n.name = some name ∧ QuotedKeyAt text offset name.toList

/-- Every search from a boundary ends without a fault, and what it finds follows. -/
theorem findAnchor?_spec {text : Text} {cursor : Nat} (h : text.isBoundary cursor = true)
    (n : Node) :
    ∃ found, findAnchor? text cursor n = .ok found ∧ ∀ a, found = some a →
      a.Follows text cursor ∧ (a.start < cursor → HasQuotedKeyAt text cursor n) := by
  obtain ⟨name, value, shape, parent, children, index, stop, span⟩ := n
  -- scalars and item markers are never found before the cursor
  have hforward : ∀ {found : Except CutFault (Option Anchor)} {n : Node},
      (∃ anchor?, found = .ok anchor? ∧
        ∀ a, anchor? = some a → a.Follows text cursor ∧ cursor ≤ a.start) →
      ∃ anchor?, found = .ok anchor? ∧ ∀ a, anchor? = some a →
        a.Follows text cursor ∧ (a.start < cursor → HasQuotedKeyAt text cursor n) := by
    rintro _ _ ⟨anchor?, hfound, hspec⟩
    exact ⟨anchor?, hfound, fun a ha =>
      ⟨(hspec a ha).1, fun hlt => absurd (hspec a ha).2 (Nat.not_le_of_lt hlt)⟩⟩
  cases name with
  | some name =>
    obtain ⟨found, hfound, hspec⟩ := @findKey?_spec _ name.toList _ h
    exact ⟨found, hfound, fun a ha => ⟨(hspec a ha).1, fun hlt => ⟨name, rfl, (hspec a ha).2 hlt⟩⟩⟩
  | none =>
    cases shape with
    | mapping => exact hforward (findMarker?_spec h)
    | sequence => exact hforward (findMarker?_spec h)
    | scalar =>
      cases value with
      | some value => exact hforward (findScalar?_spec h)
      | none => exact ⟨none, rfl, by simp⟩

/-! ## What a search finds -/

/-- The anchor of a node at or after an offset, without regard to faults. -/
def found? (text : Text) (cursor : Nat) (n : Node) : Option Anchor :=
  (findAnchor? text cursor n).toOption.join

variable {text : Text} {cursor : Nat}

/-- A search that begins at a boundary never fails. -/
theorem findAnchor?_eq (h : text.isBoundary cursor = true) (n : Node) :
    findAnchor? text cursor n = .ok (found? text cursor n) := by
  obtain ⟨found, hfound, -⟩ := findAnchor?_spec h n
  rw [found?, hfound]
  rfl

theorem follows_of_found? (h : text.isBoundary cursor = true) {n : Node} {a : Anchor}
    (ha : found? text cursor n = some a) : a.Follows text cursor := by
  obtain ⟨found, hfound, hspec⟩ := findAnchor?_spec h n
  rw [findAnchor?_eq h, Except.ok.injEq] at hfound
  exact (hspec a (hfound ▸ ha)).1

/-- **A search goes back exactly when the key it looks for stands right at the cursor, behind its
opening quote.** -/
theorem found?_before_iff (h : text.isBoundary cursor = true) (n : Node) :
    (∃ a, found? text cursor n = some a ∧ a.start < cursor) ↔ HasQuotedKeyAt text cursor n := by
  constructor
  · rintro ⟨a, ha, hlt⟩
    obtain ⟨found, hfound, hspec⟩ := findAnchor?_spec h n
    rw [findAnchor?_eq h, Except.ok.injEq] at hfound
    exact (hspec a (hfound ▸ ha)).2 hlt
  · rintro ⟨name, hname, hkey⟩
    obtain ⟨a, hfind, hlt⟩ := findKey?_of_quotedKeyAt hkey
    refine ⟨a, ?_, hlt⟩
    simp only [found?, findAnchor?, hname, hfind]
    rfl

end WorkflowLens.Tree
