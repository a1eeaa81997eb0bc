import Mathlib.Algebra.Ring.Parity
import WorkflowLens.Proofs.Expression.Closing
import WorkflowLens.Proofs.Expression.LongestMatch

/-!
# Quotes and unfinished literals

Whether a text ends inside a string literal can be told by counting quotes.  A literal has one
quote at each end and quotes in pairs between them, so it has an even number of quotes if it is
closed and an odd number if it is not.  No other lexeme has any.  A literal that is not closed goes
on to the end of the text, so there is at most one, and it is the last token.

So behind an odd number of quotes the last token is neither a word nor a dot, and no operand may
begin after it: nothing is completed inside a literal, whatever it holds.

* `even_count_of_mem_lexemes`, `odd_count_of_mem_openLiteral`: the quotes of one lexeme.
* `IsMatch.even_count_or_unclosed`: the quotes of the token that the rule allows at a place.
* `KeepsRule.odd_count_iff`: the quotes of a text, by its last token.
* `Path.odd_count_spec`: there is no path inside an unfinished literal.
-/

namespace WorkflowLens.Expression

/-! ## The quotes of a lexeme -/

/-- Between its ends a literal has quotes in pairs. -/
theorem even_count_of_mem_literalContent :
    ∀ t : Text, t ∈ literalContent → Even (t.count '\x27')
  | [], _ => ⟨0, rfl⟩
  | c :: t, h => by
    rcases mem_literalContent_iff.mp h with hnil | ⟨_, _, heq, hc, ht⟩ | ⟨s, heq, hs⟩
    · cases hnil
    · cases heq
      rw [List.count_cons_of_ne hc]
      exact even_count_of_mem_literalContent t ht
    · cases heq
      rw [List.count_cons_self, List.count_cons_self]
      exact (even_count_of_mem_literalContent s hs).add even_two
termination_by t => t.length

theorem odd_count_of_mem_openLiteral {t : Text} (h : t ∈ openLiteral) :
    Odd (t.count '\x27') := by
  obtain ⟨body, hbody, rfl⟩ := mem_openLiteral_iff.mp h
  rw [List.count_cons_self]
  exact (even_count_of_mem_literalContent body hbody).add_one

/-- Only literals have quotes. -/
theorem quote_notMem_of_mem_lexemes {kind : TokenKind} {w : Text} (h : w ∈ kind.lexemes)
    (hkind : kind ≠ .string) : '\x27' ∉ w := by
  have hfixed : ∀ entry ∈ fixedLexemes, '\x27' ∉ entry.2 := by decide
  intro hquote
  rcases char_cases_of_mem_lexemes h hquote with hstring | ⟨-, hrest⟩ | hblank | hdigit |
    ⟨entry, hentry, hmem⟩
  · exact hkind hstring
  · exact absurd hrest (by decide)
  · exact absurd hblank (by decide)
  · exact absurd hdigit (by decide)
  · exact hfixed entry hentry hmem

/-- **A lexeme has an even number of quotes.** -/
theorem even_count_of_mem_lexemes {kind : TokenKind} {w : Text} (h : w ∈ kind.lexemes) :
    Even (w.count '\x27') := by
  by_cases hkind : kind = .string
  · subst hkind
    obtain ⟨body, hbody, rfl⟩ := mem_string_iff.mp h
    rw [List.count_cons_self, List.count_append, List.count_singleton_self, Nat.add_assoc]
    exact (even_count_of_mem_literalContent body hbody).add even_two
  · rw [List.count_eq_zero.mpr (quote_notMem_of_mem_lexemes h hkind)]
    exact Even.zero

/-! ## The quotes of a text -/

/-- A quote begins a literal, or one that is not closed. -/
theorem openLiteral_or_exists_string (t : Text) :
    '\x27' :: t ∈ openLiteral ∨ ∃ w ∈ TokenKind.string.lexemes, w <+: '\x27' :: t := by
  cases hclosed : (literalBody t).1 with
  | false => exact .inl (mem_openLiteral_iff.mpr ⟨t, literalBody_eq_false_iff.mp hclosed, rfl⟩)
  | true =>
    obtain ⟨body, hbody, heq⟩ := cons_literalBody_mem hclosed
    refine .inr ⟨'\x27' :: (body ++ ['\x27']), mem_string_iff.mpr ⟨body, hbody, rfl⟩, ?_⟩
    rw [← heq]
    exact (List.prefix_cons_inj _).mpr (literalBody_isPrefix t)

/-- The token at a place has an even number of quotes, unless it is a literal that goes on to the
end of the text. -/
theorem IsMatch.even_count_or_unclosed {t w : Text} {kind : TokenKind} (h : IsMatch t kind w) :
    Even (w.count '\x27') ∨ kind = .error ∧ w = t ∧ t ∈ openLiteral := by
  cases h with
  | longest _ mem => exact .inl (even_count_of_mem_lexemes mem)
  | unclosed opens => exact .inr ⟨rfl, rfl, opens⟩
  | @unknown c rest closed cons_eq none =>
    have hc : c ≠ '\x27' := by
      rintro rfl
      rcases openLiteral_or_exists_string rest with hopen | ⟨w, hw, hpre⟩
      · exact closed (cons_eq ▸ hopen)
      · exact none _ w hw (cons_eq ▸ hpre)
    rw [List.count_cons_of_ne hc]
    exact .inl Even.zero

/-- A token is a literal that is not closed. -/
def Token.IsUnclosed (k : Token) : Prop := k.kind = .error ∧ k.text ∈ openLiteral

/-- **A text has an odd number of quotes exactly if its last token is a literal that is not
closed.** -/
theorem KeepsRule.odd_count_iff {offset : Nat} {tokens : List Token} (h : KeepsRule offset tokens) :
    Odd ((textOf tokens).count '\x27') ↔ ∃ k ∈ tokens.getLast?, k.IsUnclosed := by
  induction tokens generalizing offset with
  | nil => simp
  | cons k tokens ih =>
    obtain ⟨⟨-, -, hmatch⟩, hrest⟩ := keepsRule_cons_iff.mp h
    rw [textOf_cons, List.count_append]
    rcases hmatch.even_count_or_unclosed with heven | ⟨hkind, hall, hopen⟩
    · rw [Nat.odd_add', iff_true_right heven, ih hrest]
      cases tokens with
      | nil =>
        have hclosed : ¬ k.IsUnclosed := fun hk =>
          Nat.not_odd_iff_even.mpr heven (odd_count_of_mem_openLiteral hk.2)
        simpa using hclosed
      | cons l tokens => rw [List.getLast?_cons_cons]
    · -- the literal goes on to the end of the text, so there is no token behind it
      have hnothing : textOf tokens = [] := List.self_eq_append_right.mp hall
      cases tokens with
      | nil =>
        rw [← hall] at hopen
        rw [textOf_nil, List.count_nil, Nat.add_zero]
        exact iff_of_true (odd_count_of_mem_openLiteral hopen) ⟨k, rfl, hkind, hopen⟩
      | cons l tokens =>
        rw [textOf_cons] at hnothing
        exact absurd (List.append_eq_nil_iff.mp hnothing).1 (keepsRule_cons_iff.mp hrest).1.1

namespace Path

/-- A text ends inside a string literal: its last token is a literal that is not closed. -/
def EndsInLiteral (body : Text) : Prop := ∃ k ∈ (tokenize body).getLast?, k.IsUnclosed

theorem odd_count_iff_endsInLiteral (body : Text) :
    Odd (body.count '\x27') ↔ EndsInLiteral body := by
  have hkeeps : KeepsRule 0 (tokenize body) := keepsRule_tokensFrom 0 body
  rw [EndsInLiteral, ← hkeeps.odd_count_iff, ← (lexes_tokenize body).eq_textOf]

/-- **Nothing is completed inside a string literal.**  A text with an odd number of quotes is one
that ends inside a literal, and there is no path at its end.  So there is none at a caret either, if
the expression at the caret has an odd number of quotes.  The expression goes from the last opener
on the line up to the caret, also if an opener before it had begun a literal. -/
theorem odd_count_spec :
    (∀ body : Text, (Odd (body.count '\x27') ↔ EndsInLiteral body) ∧
      (Odd (body.count '\x27') → ofBody? body = none)) ∧
    ∀ (text outside inside : Text) (caret : Nat),
      text.lineBefore (min caret text.byteSize) = outside ++ opener ++ inside →
      ¬ opener <:+: inside → Odd (inside.count '\x27') → atCaret? text caret = .ok none := by
  have hbody : ∀ body : Text, Odd (body.count '\x27') → ofBody? body = none := by
    intro body hodd
    obtain ⟨k, hk, hkind, -⟩ := (odd_count_iff_endsInLiteral body).mp hodd
    exact ofBody?_eq_none hk (by simp [hkind]) (by simp [hkind, TokenKind.startsOperand])
  refine ⟨fun body => ⟨odd_count_iff_endsInLiteral body, hbody body⟩, ?_⟩
  intro text outside inside caret hline hlast hodd
  by_cases hboundary : text.isBoundary (min caret text.byteSize) = true
  · rw [atCaret?_of_isBoundary hboundary, hline, ofLine?_append hlast, hbody inside hodd]
    simp
  · exact atCaret?_of_not_isBoundary hboundary

/-- A literal with a doubled quote, dots and words, which is not over at the caret. -/
theorem odd_count_unfinishedText :
    let inside : Text := " 'it''s env.a.".toList
    let text : Text := "if: $\x7b\x7b".toList ++ inside ++ "'".toList
    Odd (inside.count '\x27') ∧ EndsInLiteral inside ∧ ofBody? inside = none ∧
      text.lineBefore (min 21 text.byteSize) = "if: ".toList ++ opener ++ inside ∧
      ¬ opener <:+: inside ∧ atCaret? text 21 = .ok none := by
  intro inside text
  have hodd : Odd (inside.count '\x27') := ⟨1, rfl⟩
  have hline : text.lineBefore (min 21 text.byteSize) = "if: ".toList ++ opener ++ inside := by
    decide
  have hlast : ¬ opener <:+: inside := by decide
  obtain ⟨hbody, hcaret⟩ := odd_count_spec
  obtain ⟨hiff, hnone⟩ := hbody inside
  exact ⟨hodd, hiff.mp hodd, hnone hodd, hline, hlast, hcaret text _ inside 21 hline hlast hodd⟩

end Path

end WorkflowLens.Expression
