import WorkflowLens.Proofs.Expression.Caret

/-!
# When an expression is closed

There are two answers to the question whether an expression is closed before the caret.  The scan
of `Path.atCaret?` looks for two closing braces in a row.  The tokens know string literals, and
braces in a literal close nothing.

Two braces in a row stand in one token or on both sides of a border between two tokens.  The
second cannot be: a lexeme that ends with a brace is a closer, a literal that goes on to the end of
the text, or a single brace with no other one after it.  So the two answers differ only by the
braces in literals, and with them `Path.atCaret?` gives up where there is a path.

* `LexemeCases.brace_cases`: the lexemes with a closing brace.
* `Lexes.closer_infix_iff`: two braces in a row are a token or stand in a literal.
* `Path.atCaret?_eq_iff`: when the answer of `Path.atCaret?` is that of the tokens.
* `Path.atCaret?_quotedCloserBody`: an expression where it is not.
-/

namespace WorkflowLens.Expression

open WorkflowLens.Expression.Path (opener closer)

/-! ## Braces in lexemes -/

/-- A fixed lexeme with a closing brace is the closer. -/
theorem kind_eq_closing_of_mem_fixedLexemes :
    ∀ entry ∈ fixedLexemes, '}' ∈ entry.2 → entry.1 = .closing := by
  decide

theorem eq_closer_of_mem_fixedLexemes :
    ∀ entry ∈ fixedLexemes, entry.1 = .closing → entry.2 = closer := by
  decide

namespace LexemeCases

variable {c : Char} {t : Text} {kind : TokenKind} {lexeme : Text}

theorem eq_closer (h : LexemeCases c t .closing lexeme) : lexeme = closer := by
  cases h with
  | fixed mem => exact eq_closer_of_mem_fixedLexemes _ mem rfl

/-- A closing brace stands in a literal, in a closer, or alone with no other one after it.  A
literal ends with a quote, unless it goes on to the end of the text. -/
theorem brace_cases (h : LexemeCases c t kind lexeme) (hbrace : '}' ∈ lexeme) :
    c = '\x27' ∧ (lexeme.getLast? = some '\x27' ∨ lexeme = c :: t) ∨ kind = .closing ∨
      lexeme = ['}'] ∧ ¬ closer <+: c :: t := by
  cases h with
  | blanks blank => exact absurd (isExpressionBlank_of_mem blank hbrace) (by decide)
  | identifier start => exact absurd (isIdentifierRest_of_mem start hbrace) (by decide)
  | number => exact absurd (mem_numberLexeme hbrace) (by decide)
  | string quote closed =>
    refine Or.inl ⟨quote, Or.inl ?_⟩
    rw [List.getLast?_cons, getLast?_literalBody closed]
    rfl
  | unclosed quote closed => exact Or.inl ⟨quote, Or.inr (by rw [literalBody_eq_self closed])⟩
  | fixed mem => exact Or.inr (Or.inl (kind_eq_closing_of_mem_fixedLexemes _ mem hbrace))
  | unknown none =>
    have hc : c = '}' := (List.mem_singleton.mp hbrace).symm
    exact Or.inr (Or.inr ⟨by rw [hc], none (.closing, closer) (by decide)⟩)

end LexemeCases

/-! ## The two ways of looking for the end -/

/-- Two characters that stand next to each other in a text of two parts stand in one of them, or
on both sides of the border. -/
theorem pair_infix_append {a b : Char} {s t : Text} (h : [a, b] <:+: s ++ t) :
    [a, b] <:+: s ∨ [a, b] <:+: t ∨ s.getLast? = some a ∧ t.head? = some b := by
  induction s with
  | nil => exact Or.inr (Or.inl h)
  | cons c s ih =>
    rw [List.cons_append] at h
    rcases List.infix_cons_iff.mp h with hbegins | hrest
    · obtain ⟨rfl, hb⟩ := List.cons_prefix_cons.mp hbegins
      cases s with
      | nil =>
        obtain ⟨rest, hrest⟩ := hb
        rw [List.nil_append] at hrest
        exact Or.inr (Or.inr ⟨rfl, by rw [← hrest]; rfl⟩)
      | cons d s =>
        obtain ⟨rfl, -⟩ := List.cons_prefix_cons.mp hb
        exact Or.inl ⟨[], s, rfl⟩
    · rcases ih hrest with hs | ht | ⟨hlast, hhead⟩
      · exact Or.inl (hs.trans (List.suffix_cons c s).isInfix)
      · exact Or.inr (Or.inl ht)
      · refine Or.inr (Or.inr ⟨?_, hhead⟩)
        rw [List.getLast?_cons, hlast]
        rfl

/-- Whether a token is a string literal, closed or not. -/
def Token.IsLiteral (k : Token) : Prop := k.text.head? = some '\x27'

/-- A closer in the text from a token on is that token, stands in it as in a literal, or stands
behind it. -/
theorem Token.IsReadBefore.closer_cases {k : Token} {rest : Text} (h : k.IsReadBefore rest)
    (hcloser : closer <:+: k.text ++ rest) :
    k.kind = .closing ∨ k.IsLiteral ∧ closer <:+: k.text ∨ closer <:+: rest := by
  obtain ⟨c, s, htext, hcases⟩ := h
  have hliteral : c = '\x27' → k.IsLiteral := by
    intro hc
    rw [Token.IsLiteral, htext, hc]
    rfl
  by_cases hbrace : '}' ∈ k.text
  · rcases hcases.brace_cases hbrace with ⟨hquote, hend⟩ | hkind | ⟨halone, hno⟩
    · rcases pair_infix_append hcloser with hin | hrest | ⟨hlast, hhead⟩
      · exact Or.inr (Or.inl ⟨hliteral hquote, hin⟩)
      · exact Or.inr (Or.inr hrest)
      · rcases hend with hend | hend
        · rw [hend] at hlast
          exact absurd hlast (by decide)
        · have hrest : rest = [] := by simpa [htext] using hend
          rw [hrest] at hhead
          cases hhead
    · exact Or.inl hkind
    · rw [halone, List.singleton_append] at hcloser
      rw [htext, List.cons.injEq] at halone
      rw [halone.1, halone.2, List.nil_append] at hno
      exact Or.inr (Or.inr ((List.infix_cons_iff.mp hcloser).resolve_left hno))
  · rcases pair_infix_append hcloser with hin | hrest | ⟨hlast, -⟩
    · exact absurd (hin.mem (by decide)) hbrace
    · exact Or.inr (Or.inr hrest)
    · exact absurd (List.mem_of_getLast? hlast) hbrace

/-- A closer in a text is a token or stands in a literal. -/
theorem Lexes.closer_infix_iff {offset : Nat} {t : Text} {tokens : List Token}
    (h : Lexes offset t tokens) :
    closer <:+: t ↔
      (∃ k ∈ tokens, k.kind = .closing) ∨ ∃ k ∈ tokens, k.IsLiteral ∧ closer <:+: k.text := by
  constructor
  · intro hcloser
    induction h with
    | nil => exact absurd hcloser (by decide)
    | @cons offset k rest tokens _ isRead after ih =>
      rcases isRead.closer_cases hcloser with hkind | hliteral | hrest
      · exact Or.inl ⟨k, List.mem_cons_self .., hkind⟩
      · exact Or.inr ⟨k, List.mem_cons_self .., hliteral⟩
      · rcases ih hrest with ⟨l, hl, hkind⟩ | ⟨l, hl, hliteral⟩
        · exact Or.inl ⟨l, List.mem_cons_of_mem _ hl, hkind⟩
        · exact Or.inr ⟨l, List.mem_cons_of_mem _ hl, hliteral⟩
  · have hinside : ∀ k ∈ tokens, k.text <:+: t := by
      intro k hk
      obtain ⟨before, after, rfl⟩ := List.append_of_mem hk
      rw [h.eq_textOf, textOf_append, textOf_cons, ← List.append_assoc]
      exact List.infix_append _ _ _
    rintro (⟨k, hk, hkind⟩ | ⟨k, hk, -, hcloser⟩)
    · obtain ⟨after, c, s, -, hcases⟩ := h.exists_isReadBefore hk
      rw [hkind] at hcases
      have htext := hinside k hk
      rw [hcases.eq_closer] at htext
      exact htext
    · exact hcloser.trans (hinside k hk)

namespace Path

/-- Some token of an expression closes it. -/
def HasClosing (body : Text) : Prop := ∃ k ∈ tokenize body, k.kind = .closing

/-- A closer stands in a string literal of an expression. -/
def HasQuotedCloser (body : Text) : Prop :=
  ∃ k ∈ tokenize body, k.IsLiteral ∧ closer <:+: k.text

instance : DecidablePred HasClosing := fun body =>
  inferInstanceAs (Decidable (∃ k ∈ tokenize body, k.kind = .closing))

instance : DecidablePred HasQuotedCloser := fun body =>
  inferInstanceAs (Decidable (∃ k ∈ tokenize body, k.text.head? = some '\x27' ∧ closer <:+: k.text))

/-- The path at the end of a line, by what comes after the last opener. -/
theorem ofLine?_append {outside inside : Text} (hlast : ¬ opener <:+: inside) :
    ofLine? (outside ++ opener ++ inside) = if Text.contains closer inside then none
      else (ofBody? inside).map fun p => p.shift (outside.byteSize + Text.byteSize opener) := by
  have hlater : ¬ opener <:+: ['{', '{'] ++ inside := by
    intro h
    rcases List.infix_cons_iff.mp h with hbegins | h
    · exact absurd (List.cons_prefix_cons.mp hbegins).1 (by decide)
    rcases List.infix_cons_iff.mp h with hbegins | h
    · exact absurd (List.cons_prefix_cons.mp hbegins).1 (by decide)
    exact hlast h
  have hsplit : Text.splitAtLast? opener (outside ++ opener ++ inside) = some (outside, inside) :=
    Text.splitAtLast?_append hlater outside
  rw [ofLine?, hsplit]

/-- **The scan for a closer and the tokens disagree exactly about a closer in a literal.**  A token
that closes the expression is always found; without one, there is the path at the end of the
expression unless a closer in a literal hides it. -/
theorem atCaret?_eq_iff {text outside inside : Text} {caret : Nat}
    (hcaret : text.isBoundary caret = true)
    (hline : text.lineBefore caret = outside ++ opener ++ inside) (hlast : ¬ opener <:+: inside) :
    (Text.contains closer inside = true ↔ HasClosing inside ∨ HasQuotedCloser inside) ∧
    (HasClosing inside → atCaret? text caret = .ok none) ∧
    (¬ HasClosing inside →
      (atCaret? text caret = .ok ((ofBody? inside).map fun p =>
          p.shift (text.caretLineStart caret + (outside.byteSize + Text.byteSize opener))) ↔
        ofBody? inside = none ∨ ¬ HasQuotedCloser inside)) := by
  have hcloser : Text.contains closer inside = true ↔
      HasClosing inside ∨ HasQuotedCloser inside :=
    Text.contains_iff.trans (lexes_tokenize inside).closer_infix_iff
  have hmin := Nat.min_eq_left (Text.le_byteSize_of_isBoundary hcaret)
  have hclamped : text.isBoundary (min caret text.byteSize) = true := by
    rw [hmin]
    exact hcaret
  have hat := atCaret?_of_isBoundary hclamped
  rw [hmin, hline, ofLine?_append hlast] at hat
  refine ⟨hcloser, fun hclosing => ?_, fun hclosing => ?_⟩
  · rw [hat, if_pos (hcloser.mpr (Or.inl hclosing))]
    rfl
  · by_cases hquoted : HasQuotedCloser inside
    · rw [hat, if_pos (hcloser.mpr (Or.inr hquoted))]
      cases ofBody? inside with
      | none => simp
      | some p => simp [hquoted]
    · rw [hat, if_neg fun h => (hcloser.mp h).elim hclosing hquoted]
      simp [hquoted, Function.comp_def]

/-! ## A closer in a literal

The literal is over, and the caret is behind it in an expression that no token closes.  But the
scan finds the two braces in the literal. -/

/-- The text of a call, up to a path: ` format('\x7b\x7bx\x7d\x7d', env.` -/
def quotedCloserBody : Text := " format('\x7b\x7bx\x7d\x7d', env.".toList

/-- **There is a path at the end of an expression that is not closed, but none at the caret.** -/
theorem atCaret?_quotedCloserBody : ¬ HasClosing quotedCloserBody ∧
    ofBody? quotedCloserBody = some ⟨["env"], "", Span.ofSize 21 0⟩ ∧
    atCaret? (opener ++ quotedCloserBody) 24 = .ok none := by
  exact ⟨by decide, rfl, rfl⟩

/-- A closer in a literal makes the difference here. -/
theorem hasQuotedCloser_quotedCloserBody :
    Text.isBoundary (opener ++ quotedCloserBody) 24 = true ∧
    Text.lineBefore (opener ++ quotedCloserBody) 24 = [] ++ opener ++ quotedCloserBody ∧
    ¬ opener <:+: quotedCloserBody ∧ ¬ HasClosing quotedCloserBody ∧
    HasQuotedCloser quotedCloserBody ∧
    atCaret? (opener ++ quotedCloserBody) 24
      ≠ .ok (some ⟨["env"], "", Span.ofSize 24 0⟩) := by
  have hboundary : Text.isBoundary (opener ++ quotedCloserBody) 24 = true := by decide
  have hline : Text.lineBefore (opener ++ quotedCloserBody) 24
      = [] ++ opener ++ quotedCloserBody := by decide
  have hlast : ¬ opener <:+: quotedCloserBody := by decide
  have hclosing : ¬ HasClosing quotedCloserBody := by decide
  have hquoted : HasQuotedCloser quotedCloserBody := by decide
  refine ⟨hboundary, hline, hlast, hclosing, hquoted, fun hpath => ?_⟩
  rcases ((atCaret?_eq_iff hboundary hline hlast).2.2 hclosing).mp hpath with hnone | hno
  · cases hnone
  · exact hno hquoted

end Path

end WorkflowLens.Expression
