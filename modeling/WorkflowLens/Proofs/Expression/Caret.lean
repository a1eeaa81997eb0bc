import WorkflowLens.Expression.Path
import WorkflowLens.Proofs.Expression.Tokens
import WorkflowLens.Proofs.Text.Lines

/-!
# Where the path at a caret stands

A path that is completed is replaced at its span, so the span must be exactly the word before the
caret.  The proof follows the text from the tokens out.  The walk back over the tokens passes what
spells the segments, so in the text of the expression the path stands at the end; the expression is
the end of the line before the caret; and the line stands in the document where it starts.

Before the first segment there is no dot.  The walk stops at a token that is no dot, and such a
token may still end with one: a literal that is never closed.  But that goes on to the end of the
text, and then there is no path behind it.

* `segmentsBefore?_sound`: what the walk back over the tokens passes.
* `ofBody?_of_word`, `ofBody?_of_open`, `ofBody?_eq_none`: the path at the end of a text by its last
  token.
* `isAtEndOf_of_ofBody?`: the path at the end of the text of an expression.
* `ofLine?`, `atCaret?_of_isBoundary`: the path at a caret is the one at the end of the line so
  far, moved to where the line starts.
* `atCaret?_spec`: where the path at a caret stands, and what it depends on.
-/

namespace WorkflowLens.Expression

namespace Path

/-- The segments as they are written, each followed by a dot. -/
def dotted (segments : List String) : Text := segments.flatMap fun s => s.toList ++ ['.']

theorem dotted_append_singleton (segments : List String) (s : String) :
    dotted (segments ++ [s]) = dotted segments ++ (s.toList ++ ['.']) := by
  rw [dotted, List.flatMap_append, List.flatMap_singleton, dotted]

/-! ## Segments -/

/-- The tokens at which the walk back over segments stops: what it has passed spells the segments,
and what is left does not end with a dot. -/
theorem segmentsBefore?_sound {ks : List Token}
    (hidentifier : ∀ k ∈ ks, k.kind = .identifier → IsIdentifier k.text)
    (hdot : ∀ k ∈ ks, k.kind = .dot → k.text = ['.']) {segments : List String}
    (h : segmentsBefore? ks = some segments) :
    ∃ passed left, ks = passed ++ left ∧ (∀ k ∈ left.head?, k.kind ≠ .dot) ∧
      textOf passed.reverse = dotted segments ∧
      ∀ s ∈ segments, IsIdentifier s.toList := by
  fun_induction segmentsBefore? ks generalizing segments with
  | case1 =>
    cases h
    exact ⟨[], [], rfl, by simp, rfl, by simp⟩
  | case2 last hlast => cases h
  | case3 last hlast =>
    cases h
    exact ⟨[], [last], rfl, by simpa using hlast, rfl, by simp⟩
  | case4 last word rest hlast hword ih =>
    obtain ⟨outer, houter, rfl⟩ := Option.map_eq_some_iff.mp h
    obtain ⟨passed, left, hrest, hleft, htext, houterIdentifier⟩ := ih
      (fun k hk => hidentifier k (List.mem_cons_of_mem _ (List.mem_cons_of_mem _ hk)))
      (fun k hk => hdot k (List.mem_cons_of_mem _ (List.mem_cons_of_mem _ hk))) houter
    have hlastText : last.text = ['.'] := hdot last (List.mem_cons_self ..) hlast
    have hwordText : IsIdentifier word.text :=
      hidentifier word (List.mem_cons_of_mem _ (List.mem_cons_self ..)) hword
    refine ⟨last :: word :: passed, left, by rw [hrest]; rfl, hleft, ?_, ?_⟩
    · rw [List.reverse_cons, List.reverse_cons, textOf_append, textOf_append, htext,
        dotted_append_singleton, String.toList_ofList, textOf_cons, textOf_cons, textOf_nil,
        hlastText, List.append_nil, List.append_nil, List.append_assoc]
    · intro s hs
      rcases List.mem_append.mp hs with hs | hs
      · exact houterIdentifier s hs
      · rw [List.mem_singleton.mp hs, String.toList_ofList]
        exact hwordText
  | case5 last word rest hlast hword => cases h
  | case6 last word rest hlast =>
    cases h
    exact ⟨[], last :: word :: rest, rfl, by simpa using hlast, rfl, by simp⟩

/-! ## The last token -/

/-- The path at the end of a text that ends with a word. -/
theorem ofBody?_of_word {body w : Text} {offset : Nat} {ks : List Token}
    (h : tokenize body = ks ++ [⟨.identifier, w, offset⟩]) :
    ofBody? body = (segmentsBefore? ks.reverse).map fun segments =>
      ⟨segments, String.ofList w, Span.ofSize offset w.byteSize⟩ := by
  rw [ofBody?, h, List.reverse_append]
  rfl

/-- The path at the end of a text that ends with a dot, or where an operand may begin. -/
theorem ofBody?_of_open {body : Text}
    (h : ∀ k ∈ (tokenize body).getLast?, k.kind = .dot ∨ k.kind.startsOperand = true) :
    ofBody? body = (segmentsBefore? (tokenize body).reverse).map fun segments =>
      ⟨segments, "", Span.ofSize body.byteSize 0⟩ := by
  rw [← List.head?_reverse] at h
  rw [ofBody?]
  cases htokens : (tokenize body).reverse with
  | nil => rfl
  | cons last rest =>
    have hlast := h last (by rw [htokens]; rfl)
    have hword : ¬ last.kind = .identifier := by
      intro hkind
      rw [hkind] at hlast
      exact absurd hlast (by decide)
    simp only [if_neg hword, if_pos hlast]

/-- There is no path where a text ends with anything else. -/
theorem ofBody?_eq_none {body : Text} {k : Token} (h : (tokenize body).getLast? = some k)
    (hword : k.kind ≠ .identifier) (hopen : ¬ (k.kind = .dot ∨ k.kind.startsOperand = true)) :
    ofBody? body = none := by
  rw [← List.head?_reverse] at h
  rw [ofBody?]
  cases htokens : (tokenize body).reverse with
  | nil =>
    rw [htokens] at h
    cases h
  | cons last rest =>
    rw [htokens] at h
    cases h
    simp only [if_neg hword, if_neg hopen]

/-! ## The text of an expression -/

/-- A path stands at the end of a text: its segments and its stem are the last words, no dot comes
before them, and its span is that of the stem. -/
structure IsAtEndOf (p : Path) (body : Text) : Prop where
  identifiers : ∀ s ∈ p.segments, IsIdentifier s.toList
  stem_identifier : p.stem ≠ "" → IsIdentifier p.stem.toList
  written : ∃ before, body = before ++ dotted p.segments ++ p.stem.toList ∧
    before.getLast? ≠ some '.' ∧
    p.span = Span.ofSize (Text.byteSize (before ++ dotted p.segments))
      (Text.byteSize p.stem.toList)

/-- Where the walk back stops the text does not end with a dot.  A token that is no dot and ends
with one is a literal that is never closed, and after that no token comes. -/
theorem getLast?_textOf_ne_dot {body : Text} {left after : List Token}
    (h : Lexes 0 body (left.reverse ++ after)) (hdot : ∀ k ∈ left.head?, k.kind ≠ .dot)
    (herror : ∀ k ∈ left.head?, after = [] → k.kind ≠ .error) :
    (textOf left.reverse).getLast? ≠ some '.' := by
  cases left with
  | nil => simp
  | cons k left =>
    have hafter := h.split
    rw [List.reverse_cons, List.append_assoc, List.singleton_append] at h
    obtain ⟨c, s, htext, hcases⟩ := h.isReadBefore
    have hlast : (textOf (k :: left).reverse).getLast? = k.text.getLast? := by
      rw [List.reverse_cons, textOf_append, textOf_cons, textOf_nil, List.append_nil,
        List.getLast?_append_of_ne_nil _ hcases.ne_nil]
    intro hend
    rw [hlast] at hend
    rcases hcases.eq_dot_or_eq_error hend with hkind | ⟨hkind, hrest⟩
    · exact hdot k rfl hkind
    · have hnothing : textOf after = [] := by simpa [htext] using hrest
      exact herror k rfl (hafter.eq_nil_of_textOf hnothing) hkind

/-- Segments in front of the tokens of the stem, of which there is one or none. -/
theorem isAtEndOf_of_segmentsBefore? {body : Text} {ks after : List Token} (stem : String)
    (htokens : tokenize body = ks.reverse ++ after) {segments : List String}
    (hsegments : segmentsBefore? ks = some segments)
    (herror : ∀ k ∈ ks.head?, after = [] → k.kind ≠ .error)
    (hstem : textOf after = stem.toList) (hidentifier : stem ≠ "" → IsIdentifier stem.toList) :
    IsAtEndOf ⟨segments, stem,
      Span.ofSize (Text.byteSize (textOf ks.reverse)) (Text.byteSize stem.toList)⟩ body := by
  have hlexes := lexes_tokenize body
  rw [htokens] at hlexes
  have hread : ∀ k ∈ ks, ∃ rest, k.IsReadBefore rest := fun k hk =>
    hlexes.exists_isReadBefore (List.mem_append_left _ (List.mem_reverse.mpr hk))
  obtain ⟨passed, left, rfl, hdot, htext, hidentifiers⟩ := segmentsBefore?_sound
    (fun k hk hkind => by
      obtain ⟨_, c, s, -, hcases⟩ := hread k hk
      rw [hkind] at hcases
      exact hcases.isIdentifier)
    (fun k hk hkind => by
      obtain ⟨_, c, s, -, hcases⟩ := hread k hk
      rw [hkind] at hcases
      exact hcases.eq_dot)
    hsegments
  have hbefore : textOf (passed ++ left).reverse = textOf left.reverse ++ dotted segments := by
    rw [List.reverse_append, textOf_append, htext]
  refine ⟨hidentifiers, hidentifier, textOf left.reverse, ?_, ?_, ?_⟩
  · rw [hlexes.eq_textOf, textOf_append, hbefore, hstem]
  · rw [List.reverse_append, List.append_assoc] at hlexes
    refine getLast?_textOf_ne_dot hlexes hdot fun k hk hnil => ?_
    obtain ⟨hpassed, hafter⟩ := List.append_eq_nil_iff.mp hnil
    rw [List.reverse_eq_nil_iff] at hpassed
    subst hpassed
    exact herror k hk hafter
  · rw [hbefore]

/-- A text ends with a word, or where a dot or an operand may stand, or there is no path. -/
theorem lastToken_cases (body : Text) :
    (∃ ks w offset, tokenize body = ks ++ [⟨.identifier, w, offset⟩]) ∨
      (∀ k ∈ (tokenize body).getLast?, k.kind = .dot ∨ k.kind.startsOperand = true) ∨
      ofBody? body = none := by
  cases hlast : (tokenize body).getLast? with
  | none => exact .inr (.inl (by simp))
  | some k =>
    by_cases hword : k.kind = .identifier
    · obtain ⟨ks, hks⟩ := List.getLast?_eq_some_iff.mp hlast
      refine .inl ⟨ks, k.text, k.offset, ?_⟩
      rw [hks, ← hword]
    by_cases hopen : k.kind = .dot ∨ k.kind.startsOperand = true
    · refine .inr (.inl fun l hl => ?_)
      cases hl
      exact hopen
    · exact .inr (.inr (ofBody?_eq_none hlast hword hopen))

/-- **The path at the end of a text stands there.** -/
theorem isAtEndOf_of_ofBody? {body : Text} {p : Path} (h : ofBody? body = some p) :
    p.IsAtEndOf body := by
  have hlexes := lexes_tokenize body
  rcases lastToken_cases body with ⟨ks, w, offset, htokens⟩ | hopen | hnone
  · rw [ofBody?_of_word htokens] at h
    obtain ⟨segments, hsegments, rfl⟩ := Option.map_eq_some_iff.mp h
    rw [htokens] at hlexes
    have hoffset : offset = 0 + Text.byteSize (textOf ks) := hlexes.offset_eq
    have hstem : IsIdentifier w := by
      obtain ⟨c, s, -, hcases⟩ := hlexes.isReadBefore
      exact hcases.isIdentifier
    rw [← List.reverse_reverse ks] at htokens
    have hend := isAtEndOf_of_segmentsBefore? (String.ofList w) htokens hsegments (by simp)
      (by simp) (fun _ => by simpa using hstem)
    rw [hoffset, Nat.zero_add]
    simpa using hend
  · rw [ofBody?_of_open hopen] at h
    obtain ⟨segments, hsegments, rfl⟩ := Option.map_eq_some_iff.mp h
    have hall : tokenize body = (tokenize body).reverse.reverse ++ [] := by
      rw [List.reverse_reverse, List.append_nil]
    have hend := isAtEndOf_of_segmentsBefore? "" hall hsegments
      (fun k hk _ herror => by
        rw [List.head?_reverse] at hk
        have hkind := hopen k hk
        rw [herror] at hkind
        exact absurd hkind (by decide))
      rfl (fun h => absurd rfl h)
    rw [List.reverse_reverse, ← hlexes.eq_textOf] at hend
    exact hend
  · cases hnone.symm.trans h

/-! ## The line of the caret -/

/-- The path at the end of a line: the last opener counts, if no closer follows it. -/
def ofLine? (line : Text) : Option Path :=
  match Text.splitAtLast? opener line with
  | none => none
  | some (outside, inside) =>
    if Text.contains closer inside then none
    else (ofBody? inside).map fun p => p.shift (outside.byteSize + Text.byteSize opener)

@[simp] theorem shift_shift (p : Path) (n m : Nat) : (p.shift n).shift m = p.shift (m + n) := by
  simp [shift, Span.shift, Nat.add_assoc, Nat.add_comm m n]

/-- Between two characters there is the path at the end of the line so far. -/
theorem atCaret?_of_isBoundary {text : Text} {caret : Nat}
    (h : text.isBoundary (min caret text.byteSize) = true) :
    atCaret? text caret = .ok ((ofLine? (text.lineBefore (min caret text.byteSize))).map
      fun p => p.shift (text.caretLineStart (min caret text.byteSize))) := by
  have hslice := Text.slice_lineBefore h
  rw [atCaret?]
  generalize min caret text.byteSize = caret at h hslice ⊢
  simp only [h, hslice, ofLine?, bind, Except.bind, pure, Except.pure, Bool.not_true,
    Bool.false_eq_true, if_false]
  cases Text.splitAtLast? opener (text.lineBefore caret) with
  | none => rfl
  | some sides =>
    obtain ⟨outside, inside⟩ := sides
    by_cases hclosed : Text.contains closer inside = true
    · simp [hclosed]
    · simp [hclosed, Function.comp_def, Nat.add_assoc]

/-- Inside a character there is no path. -/
theorem atCaret?_of_not_isBoundary {text : Text} {caret : Nat}
    (h : ¬ text.isBoundary (min caret text.byteSize) = true) :
    atCaret? text caret = .ok none := by
  rw [atCaret?]
  simp [h]
  rfl

/-- A path is written before a caret: its segments, each followed by a dot, and its stem stand right
before the caret, behind an opener on the caret's line and behind no other dot, and its span is
that of the stem. -/
structure IsWrittenBefore (p : Path) (text : Text) (caret : Nat) : Prop where
  identifiers : ∀ s ∈ p.segments, IsIdentifier s.toList
  stem_identifier : p.stem ≠ "" → IsIdentifier p.stem.toList
  stop_eq : p.span.stop = caret
  slice_eq : text.slice p.span.start p.span.stop = .ok p.stem.toList
  written : ∃ lines between after,
    text = lines ++ opener ++ between ++ dotted p.segments ++ p.stem.toList ++ after ∧
    p.span.start = Text.byteSize (lines ++ opener ++ between ++ dotted p.segments) ∧
    (lines ++ opener ++ between).getLast? ≠ some '.' ∧
    ∀ c ∈ opener ++ between ++ dotted p.segments ++ p.stem.toList, Text.isLineEnd c = false

theorem isWrittenBefore_of_ofLine? {text : Text} {caret : Nat} (h : text.isBoundary caret = true)
    {p : Path} (hp : ofLine? (text.lineBefore caret) = some p) :
    (p.shift (text.caretLineStart caret)).IsWrittenBefore text caret := by
  obtain ⟨lines, after, htext, hstart, hcaret⟩ := Text.exists_lineBefore_split h
  rw [ofLine?] at hp
  split at hp
  · cases hp
  next outside inside hsplit =>
  split at hp
  · cases hp
  next hopen =>
  obtain ⟨q, hq, rfl⟩ := Option.map_eq_some_iff.mp hp
  have hend := isAtEndOf_of_ofBody? hq
  obtain ⟨before, hbody, hdot, hspan⟩ := hend.written
  have hline := Text.splitAtLast?_sound hsplit
  have hnoEnd : ∀ c ∈ text.lineBefore caret, Text.isLineEnd c = false := fun c =>
    Text.not_isLineEnd_of_mem_lineBefore
  have hpieces : text = lines ++ outside ++ opener ++ before ++ dotted q.segments
      ++ q.stem.toList ++ after := by
    rw [htext, hline, hbody]
    simp only [List.append_assoc]
  rw [shift_shift]
  have hspanStart : (q.shift (text.caretLineStart caret
      + (outside.byteSize + Text.byteSize opener))).span.start
      = Text.byteSize (lines ++ outside ++ opener ++ before ++ dotted q.segments) := by
    rw [shift, hspan, ← hstart]
    simp only [Span.shift, Span.ofSize, Text.byteSize_append]
    omega
  have hspanStop : (q.shift (text.caretLineStart caret
      + (outside.byteSize + Text.byteSize opener))).span.stop = caret := by
    rw [shift, hspan, ← hstart, ← hcaret, hline, hbody]
    simp only [Span.shift, Span.ofSize, Text.byteSize_append]
    omega
  refine ⟨hend.identifiers, hend.stem_identifier, hspanStop, ?_,
    lines ++ outside, before, after, hpieces, hspanStart, ?_, ?_⟩
  · have hslice := Text.slice_append (lines ++ outside ++ opener ++ before ++ dotted q.segments)
      q.stem.toList after
    have hstop : Text.byteSize (lines ++ outside ++ opener ++ before ++ dotted q.segments
        ++ q.stem.toList) = caret := by
      rw [← hcaret, hline, hbody]
      simp only [List.append_assoc]
    rw [← hpieces, hstop, ← hspanStart] at hslice
    rw [hspanStop]
    exact hslice
  · rw [List.getLast?_append]
    cases hlast : before.getLast? with
    | none => simp [opener]
    | some d => simpa [hlast] using hdot
  · intro c hc
    refine hnoEnd c ?_
    rw [hline, hbody, List.append_assoc]
    refine List.mem_append_right outside ?_
    rw [← List.append_assoc, ← List.append_assoc]
    exact hc

/-! ## Two carets with the same line before them -/

/-- Two paths are the same, each at its own distance from the beginning of its text. -/
structure IsMoved (p q : Path) (distance otherDistance : Nat) : Prop where
  segments_eq : p.segments = q.segments
  stem_eq : p.stem = q.stem
  start_eq : p.span.start + otherDistance = q.span.start + distance
  stop_eq : p.span.stop + otherDistance = q.span.stop + distance

theorem isMoved_shift (p : Path) (n m : Nat) : (p.shift n).IsMoved (p.shift m) n m where
  segments_eq := rfl
  stem_eq := rfl
  start_eq := Nat.add_right_comm _ _ _
  stop_eq := Nat.add_right_comm _ _ _

/-- **The path at a caret is written right before it, and depends on nothing but the part of the
line before the caret.** -/
theorem atCaret?_spec (text : Text) (caret : Nat) :
    (∀ p, atCaret? text caret = .ok (some p) →
      p.IsWrittenBefore text (min caret text.byteSize)) ∧
    ∀ (other : Text) (otherCaret : Nat), text.isBoundary caret = true →
      other.isBoundary otherCaret = true →
      text.lineBefore caret = other.lineBefore otherCaret →
      (atCaret? text caret = .ok none ∧ atCaret? other otherCaret = .ok none) ∨
      ∃ p q, atCaret? text caret = .ok (some p) ∧ atCaret? other otherCaret = .ok (some q) ∧
        p.IsMoved q (text.caretLineStart caret) (other.caretLineStart otherCaret) := by
  constructor
  · intro p hp
    by_cases h : text.isBoundary (min caret text.byteSize) = true
    · rw [atCaret?_of_isBoundary h, Except.ok.injEq] at hp
      obtain ⟨q, hq, rfl⟩ := Option.map_eq_some_iff.mp hp
      exact isWrittenBefore_of_ofLine? h hq
    · rw [atCaret?_of_not_isBoundary h] at hp
      cases hp
  · intro other otherCaret h hother hline
    have hmin := Nat.min_eq_left (Text.le_byteSize_of_isBoundary h)
    have hminOther := Nat.min_eq_left (Text.le_byteSize_of_isBoundary hother)
    rw [atCaret?_of_isBoundary (by rw [hmin]; exact h), hmin,
      atCaret?_of_isBoundary (by rw [hminOther]; exact hother), hminOther, ← hline]
    cases ofLine? (text.lineBefore caret) with
    | none => exact Or.inl ⟨rfl, rfl⟩
    | some p => exact Or.inr ⟨_, _, rfl, rfl, isMoved_shift p _ _⟩

/-- The same path in the second line of one text and in the first line of another one. -/
theorem atCaret?_secondLine :
    atCaret? "on: 1\né: $\x7b\x7b jobs.bu \x7d\x7d".toList 21
      = .ok (some ⟨["jobs"], "bu", Span.ofSize 19 2⟩) ∧
    (⟨["jobs"], "bu", Span.ofSize 19 2⟩ : Path).IsWrittenBefore
      "on: 1\né: $\x7b\x7b jobs.bu \x7d\x7d".toList 21 ∧
    Text.isBoundary "é: $\x7b\x7b jobs.bu".toList 15 = true ∧
    (⟨["jobs"], "bu", Span.ofSize 19 2⟩ : Path).IsMoved ⟨["jobs"], "bu", Span.ofSize 13 2⟩ 6 0 := by
  have hfirst : atCaret? "on: 1\né: $\x7b\x7b jobs.bu \x7d\x7d".toList 21
      = .ok (some ⟨["jobs"], "bu", Span.ofSize 19 2⟩) := rfl
  have hboundary : Text.isBoundary "é: $\x7b\x7b jobs.bu".toList 15 = true := by decide
  obtain ⟨hwritten, hline⟩ := atCaret?_spec "on: 1\né: $\x7b\x7b jobs.bu \x7d\x7d".toList 21
  refine ⟨hfirst, hwritten _ hfirst, hboundary, ?_⟩
  rcases hline "é: $\x7b\x7b jobs.bu".toList 15 (by decide) hboundary (by decide) with
    ⟨hnone, -⟩ | ⟨p, q, hp, hq, hmoved⟩
  · cases hfirst.symm.trans hnone
  · cases hfirst.symm.trans hp
    have hsecond : atCaret? "é: $\x7b\x7b jobs.bu".toList 15
        = .ok (some ⟨["jobs"], "bu", Span.ofSize 13 2⟩) := rfl
    cases hsecond.symm.trans hq
    exact hmoved

end Path

end WorkflowLens.Expression
