import Mathlib.Data.List.Basic
import Mathlib.Data.List.Infix
import Mathlib.Data.List.TakeWhile
import WorkflowLens.Expression.Token
import WorkflowLens.Proofs.Text.Places

/-!
# Tokens make up their text

Cutting a text into tokens takes the lexeme at the beginning and goes on after it.  The walk of
`tokensFrom` counts the characters to be passed over instead of dropping them, so this is not what
it says on its face.  `Lexes offset t tokens` says it: each token is the lexeme at its place, its
offset is the size of what comes before, and nothing is left out.

What a lexeme can be is said once, in `LexemeCases`, and everything about single tokens is read
off there.

* `lexemeCases`: the seven ways in which a token arises.
* `LexemeCases.isIdentifier`, `LexemeCases.eq_dot`, `LexemeCases.eq_dot_or_eq_error`: what the text
  of a token looks like.
* `lexes_tokenize`: tokens make up their text.
* `Lexes.eq_textOf`, `Lexes.split`: a text is the texts of its tokens, and between any two of them
  it is cut in two.
-/

namespace WorkflowLens.Expression

/-! ## Single lexemes -/

/-- A letter or underscore followed by letters, digits, underscores and hyphens. -/
def IsIdentifier (t : Text) : Prop :=
  ∃ c rest, t = c :: rest ∧ isIdentifierStart c = true ∧ ∀ d ∈ rest, isIdentifierRest d = true

/-- The ways in which the token that begins with `c` and goes on in `t` arises. -/
inductive LexemeCases (c : Char) (t : Text) : TokenKind → Text → Prop
  | blanks (blank : isExpressionBlank c = true) :
      LexemeCases c t .blanks (c :: t.takeWhile isExpressionBlank)
  | identifier (start : isIdentifierStart c = true) :
      LexemeCases c t .identifier (c :: t.takeWhile isIdentifierRest)
  | number (digit : Text.isDigit c = true) : LexemeCases c t .number (numberLexeme (c :: t))
  | string (quote : c = '\x27') (closed : (literalBody t).1 = true) :
      LexemeCases c t .string (c :: (literalBody t).2)
  | unclosed (quote : c = '\x27') (closed : (literalBody t).1 = false) :
      LexemeCases c t .error (c :: (literalBody t).2)
  | fixed {kind : TokenKind} {lexeme : Text} (mem : (kind, lexeme) ∈ fixedLexemes)
      (begins : lexeme <+: c :: t) : LexemeCases c t kind lexeme
  | unknown (none : ∀ entry ∈ fixedLexemes, ¬ entry.2 <+: c :: t) : LexemeCases c t .error [c]

theorem lexemeCases {c : Char} {t : Text} {kind : TokenKind} {lexeme : Text}
    (h : lexemeAt c t = (kind, lexeme)) : LexemeCases c t kind lexeme := by
  rw [lexemeAt] at h
  split at h
  · next hblank =>
    cases h
    exact .blanks hblank
  split at h
  · next hstart =>
    cases h
    exact .identifier hstart
  split at h
  · next hdigit =>
    cases h
    exact .number hdigit
  split at h
  · next hquote =>
    cases h
    cases hclosed : (literalBody t).1 with
    | true => exact .string hquote hclosed
    | false => exact .unclosed hquote hclosed
  split at h
  · next found hfound =>
    have hbegins : Text.startsWith found.2 (c :: t) = true := by
      simpa using List.find?_some hfound
    cases h
    exact .fixed (List.mem_of_find?_eq_some hfound) (Text.startsWith_iff.mp hbegins)
  · next hnone =>
    cases h
    refine .unknown fun entry hentry hbegins => ?_
    have hno := List.find?_eq_none.mp hnone entry hentry
    exact hno (Text.startsWith_iff.mpr hbegins)

/-! ### String literals and numbers -/

/-- A literal is a beginning of the text after its quote. -/
theorem literalBody_isPrefix (t : Text) : (literalBody t).2 <+: t := by
  fun_induction literalBody t with
  | case1 => exact List.prefix_refl _
  | case2 t closed body heq ih =>
    rw [heq] at ih
    exact (List.prefix_cons_inj _).mpr ((List.prefix_cons_inj _).mpr ih)
  | case3 t hpair => exact ⟨t, rfl⟩
  | case4 c t hpair hquote closed body heq ih =>
    rw [heq] at ih
    exact (List.prefix_cons_inj _).mpr ih

/-- A closed literal ends with a quote. -/
theorem getLast?_literalBody {t : Text} (h : (literalBody t).1 = true) :
    (literalBody t).2.getLast? = some '\x27' := by
  fun_induction literalBody t with
  | case1 => cases h
  | case2 t closed body heq ih =>
    rw [heq] at ih
    rw [List.getLast?_cons_cons, List.getLast?_cons, ih h]
    rfl
  | case3 t hpair => rfl
  | case4 c t hpair hquote closed body heq ih =>
    rw [heq] at ih
    rw [List.getLast?_cons, ih h]
    rfl

/-- An unclosed literal goes on to the end of the text. -/
theorem literalBody_eq_self {t : Text} (h : (literalBody t).1 = false) :
    (literalBody t).2 = t := by
  fun_induction literalBody t with
  | case1 => rfl
  | case2 t closed body heq ih =>
    rw [heq] at ih
    exact congrArg ('\x27' :: '\x27' :: ·) (ih h)
  | case3 t hpair => cases h
  | case4 c t hpair hquote closed body heq ih =>
    rw [heq] at ih
    exact congrArg (c :: ·) (ih h)

/-- A number is a run of digits, or two with a point between, the second one not empty. -/
theorem numberLexeme_cases (t : Text) :
    numberLexeme t = t.takeWhile Text.isDigit ∨
      ∃ d fraction rest, (∀ e ∈ d :: fraction, Text.isDigit e = true) ∧
        t.dropWhile Text.isDigit = '.' :: (d :: fraction ++ rest) ∧
        numberLexeme t = t.takeWhile Text.isDigit ++ '.' :: d :: fraction := by
  rw [numberLexeme]
  split
  · next rest hrest =>
    cases hfraction : rest.takeWhile Text.isDigit with
    | nil => exact Or.inl rfl
    | cons d fraction =>
      refine Or.inr ⟨d, fraction, rest.dropWhile Text.isDigit, ?_, ?_, rfl⟩
      · intro e he
        rw [← hfraction] at he
        exact List.mem_takeWhile_imp he
      · rw [hrest, ← hfraction, List.takeWhile_append_dropWhile]
  · exact Or.inl rfl

theorem numberLexeme_isPrefix (t : Text) : numberLexeme t <+: t := by
  rcases numberLexeme_cases t with hwhole | ⟨d, fraction, rest, -, hrest, hnumber⟩
  · rw [hwhole]
    exact List.takeWhile_prefix _
  · refine ⟨rest, ?_⟩
    have ht := List.takeWhile_append_dropWhile (p := Text.isDigit) (l := t)
    rw [hrest] at ht
    rw [hnumber, List.append_assoc]
    exact ht

/-- A number consists of digits and points. -/
theorem mem_numberLexeme {t : Text} {d : Char} (hd : d ∈ numberLexeme t) :
    Text.isDigit d = true ∨ d = '.' := by
  rcases numberLexeme_cases t with hwhole | ⟨e, fraction, rest, hfraction, -, hnumber⟩
  · rw [hwhole] at hd
    exact Or.inl (List.mem_takeWhile_imp hd)
  · rw [hnumber] at hd
    rcases List.mem_append.mp hd with hmem | hmem
    · exact Or.inl (List.mem_takeWhile_imp hmem)
    · rcases List.mem_cons.mp hmem with hpoint | hmem
      · exact Or.inr hpoint
      · exact Or.inl (hfraction d hmem)

/-! ### All lexemes -/

theorem isExpressionBlank_of_mem {c d : Char} {t : Text} (blank : isExpressionBlank c = true)
    (hd : d ∈ c :: t.takeWhile isExpressionBlank) : isExpressionBlank d = true := by
  rcases List.mem_cons.mp hd with rfl | hrest
  · exact blank
  · exact List.mem_takeWhile_imp hrest

/-- What begins an identifier can also go on with one. -/
theorem isIdentifierRest_of_mem {c d : Char} {t : Text} (start : isIdentifierStart c = true)
    (hd : d ∈ c :: t.takeWhile isIdentifierRest) : isIdentifierRest d = true := by
  rcases List.mem_cons.mp hd with rfl | hrest
  · rw [isIdentifierStart, Bool.or_eq_true] at start
    rcases start with hletter | hunderscore
    · simp [isIdentifierRest, hletter]
    · simp [isIdentifierRest, hunderscore]
  · exact List.mem_takeWhile_imp hrest

/-- The fixed lexemes are not empty. -/
theorem ne_nil_of_mem_fixedLexemes : ∀ entry ∈ fixedLexemes, entry.2 ≠ [] := by
  decide

theorem not_mem_fixedLexemes_identifier (lexeme : Text) :
    (TokenKind.identifier, lexeme) ∉ fixedLexemes := by
  simp [fixedLexemes]

/-- The only fixed lexeme of the kind of a dot is the dot. -/
theorem eq_dot_of_mem_fixedLexemes :
    ∀ entry ∈ fixedLexemes, entry.1 = .dot → entry.2 = ['.'] := by
  decide

/-- The only fixed lexeme that ends with a dot is the dot. -/
theorem kind_eq_dot_of_mem_fixedLexemes :
    ∀ entry ∈ fixedLexemes, entry.2.getLast? = some '.' → entry.1 = .dot := by
  decide

namespace LexemeCases

variable {c : Char} {t : Text} {kind : TokenKind} {lexeme : Text}

theorem isPrefix (h : LexemeCases c t kind lexeme) : lexeme <+: c :: t := by
  cases h with
  | blanks => exact (List.prefix_cons_inj _).mpr (List.takeWhile_prefix _)
  | identifier => exact (List.prefix_cons_inj _).mpr (List.takeWhile_prefix _)
  | number => exact numberLexeme_isPrefix _
  | string => exact (List.prefix_cons_inj _).mpr (literalBody_isPrefix t)
  | unclosed => exact (List.prefix_cons_inj _).mpr (literalBody_isPrefix t)
  | fixed _ begins => exact begins
  | unknown => exact ⟨t, rfl⟩

theorem ne_nil (h : LexemeCases c t kind lexeme) : lexeme ≠ [] := by
  cases h with
  | number digit =>
    have hdigits : (c :: t).takeWhile Text.isDigit ≠ [] := by
      rw [List.takeWhile_cons_of_pos digit]
      exact List.cons_ne_nil _ _
    rcases numberLexeme_cases (c :: t) with hwhole | ⟨d, fraction, rest, -, -, hnumber⟩
    · rw [hwhole]
      exact hdigits
    · rw [hnumber]
      exact List.append_ne_nil_of_left_ne_nil hdigits _
  | fixed mem => exact ne_nil_of_mem_fixedLexemes _ mem
  | _ => exact List.cons_ne_nil _ _

/-- A lexeme begins with the character that it is read at, and the text goes on after it. -/
theorem exists_split (h : LexemeCases c t kind lexeme) :
    ∃ s rest, lexeme = c :: s ∧ t = s ++ rest := by
  obtain ⟨rest, hrest⟩ := h.isPrefix
  obtain ⟨d, s, rfl⟩ := List.exists_cons_of_ne_nil h.ne_nil
  rw [List.cons_append, List.cons.injEq] at hrest
  exact ⟨s, rest, by rw [hrest.1], hrest.2.symm⟩

theorem isIdentifier (h : LexemeCases c t .identifier lexeme) : IsIdentifier lexeme := by
  cases h with
  | identifier start => exact ⟨c, _, rfl, start, fun d hd => List.mem_takeWhile_imp hd⟩
  | fixed mem => exact absurd mem (not_mem_fixedLexemes_identifier lexeme)

theorem eq_dot (h : LexemeCases c t .dot lexeme) : lexeme = ['.'] := by
  cases h with
  | fixed mem => exact eq_dot_of_mem_fixedLexemes _ mem rfl

/-- The last character of a number is a digit. -/
theorem isDigit_of_getLast?_numberLexeme {d : Char}
    (hlast : (numberLexeme (c :: t)).getLast? = some d) : Text.isDigit d = true := by
  rcases numberLexeme_cases (c :: t) with hwhole | ⟨e, fraction, rest, hfraction, -, hnumber⟩
  · rw [hwhole] at hlast
    exact List.mem_takeWhile_imp (List.mem_of_getLast? hlast)
  · have hend : (numberLexeme (c :: t)).getLast? = (e :: fraction).getLast? := by
      rw [hnumber, List.getLast?_append, List.getLast?_cons_cons, List.getLast?_cons]
      rfl
    rw [hend] at hlast
    exact hfraction d (List.mem_of_getLast? hlast)

/-- A lexeme that ends with a dot is a dot, or a literal that is never closed. -/
theorem eq_dot_or_eq_error (h : LexemeCases c t kind lexeme)
    (hlast : lexeme.getLast? = some '.') : kind = .dot ∨ kind = .error ∧ lexeme = c :: t := by
  have hmem := List.mem_of_getLast? hlast
  cases h with
  | blanks blank => exact absurd (isExpressionBlank_of_mem blank hmem) (by decide)
  | identifier start => exact absurd (isIdentifierRest_of_mem start hmem) (by decide)
  | number =>
    exact absurd (isDigit_of_getLast?_numberLexeme hlast) (by decide)
  | string quote closed =>
    rw [List.getLast?_cons, getLast?_literalBody closed] at hlast
    cases hlast
  | unclosed quote closed => exact Or.inr ⟨rfl, by rw [literalBody_eq_self closed]⟩
  | fixed mem => exact Or.inl (kind_eq_dot_of_mem_fixedLexemes _ mem hlast)
  | unknown none =>
    rw [List.getLast?_singleton, Option.some.injEq] at hlast
    exact absurd ⟨t, by rw [hlast]; rfl⟩ (none (.dot, ['.']) (by decide))

end LexemeCases

/-! ## Tokens of a text -/

/-- The texts of tokens, one after the other. -/
def textOf (tokens : List Token) : Text := tokens.flatMap Token.text

@[simp] theorem textOf_nil : textOf [] = [] := rfl

@[simp] theorem textOf_cons (k : Token) (tokens : List Token) :
    textOf (k :: tokens) = k.text ++ textOf tokens := rfl

@[simp] theorem textOf_append (ks tokens : List Token) :
    textOf (ks ++ tokens) = textOf ks ++ textOf tokens := List.flatMap_append

/-- A token is what is read at its place, where the text goes on with `after`. -/
def Token.IsReadBefore (k : Token) (after : Text) : Prop :=
  ∃ c s, k.text = c :: s ∧ LexemeCases c (s ++ after) k.kind k.text

/-- The tokens of a text that begins at a byte offset: each one is what is read at its place, and
the next one begins where it ends. -/
inductive Lexes : (offset : Nat) → Text → List Token → Prop
  | nil {offset : Nat} : Lexes offset [] []
  | cons {offset : Nat} {k : Token} {rest : Text} {tokens : List Token}
      (offset_eq : k.offset = offset) (isRead : k.IsReadBefore rest)
      (after : Lexes (offset + Text.byteSize k.text) rest tokens) :
      Lexes offset (k.text ++ rest) (k :: tokens)

/-- Passing over some characters is beginning after them. -/
theorem tokensFrom_length (s rest : Text) (offset : Nat) :
    tokensFrom offset s.length (s ++ rest) = tokensFrom (offset + Text.byteSize s) 0 rest := by
  induction s generalizing offset with
  | nil => rfl
  | cons c s ih =>
    rw [List.length_cons, List.cons_append, tokensFrom, ih, Text.byteSize_cons, Nat.add_assoc]

/-- The first token of a text is what is read there, and the others are those of the text after
it. -/
theorem exists_tokensFrom_cons (offset : Nat) (c : Char) (t : Text) :
    ∃ kind s rest, t = s ++ rest ∧ lexemeAt c t = (kind, c :: s) ∧
      tokensFrom offset 0 (c :: t)
        = ⟨kind, c :: s, offset⟩ :: tokensFrom (offset + Text.byteSize (c :: s)) 0 rest := by
  cases hfound : lexemeAt c t with
  | mk kind lexeme =>
    obtain ⟨s, rest, rfl, rfl⟩ := (lexemeCases hfound).exists_split
    refine ⟨kind, s, rest, rfl, rfl, ?_⟩
    rw [tokensFrom, hfound]
    dsimp only
    rw [List.length_cons, Nat.add_sub_cancel, tokensFrom_length, Text.byteSize_cons, Nat.add_assoc]

theorem lexes_tokensFrom (offset : Nat) : ∀ t : Text, Lexes offset t (tokensFrom offset 0 t)
  | [] => by
    rw [tokensFrom]
    exact .nil
  | c :: t => by
    obtain ⟨kind, s, rest, ht, hfound, htokens⟩ := exists_tokensFrom_cons offset c t
    have hafter := lexes_tokensFrom (offset + Text.byteSize (c :: s)) rest
    have hcases := lexemeCases hfound
    rw [ht] at hcases
    rw [htokens, ht, ← List.cons_append]
    exact .cons (k := ⟨kind, c :: s, offset⟩) rfl ⟨c, s, rfl, hcases⟩ hafter
termination_by t => t.length
decreasing_by rw [ht, List.length_cons, List.length_append]; omega

/-- **Tokens make up their text.** -/
theorem lexes_tokenize (t : Text) : Lexes 0 t (tokenize t) := lexes_tokensFrom 0 t

namespace Lexes

variable {offset : Nat} {t : Text} {ks tokens : List Token} {k : Token}

theorem eq_textOf (h : Lexes offset t tokens) : t = textOf tokens := by
  induction h with
  | nil => rfl
  | cons _ _ _ ih => rw [textOf_cons, ← ih]

/-- Between two tokens the text is cut in two. -/
theorem split (h : Lexes offset t (ks ++ tokens)) :
    Lexes (offset + Text.byteSize (textOf ks)) (textOf tokens) tokens := by
  induction ks generalizing offset t with
  | nil =>
    have ht := h.eq_textOf
    rw [List.nil_append] at h ht
    rw [ht] at h
    exact h
  | cons k ks ih =>
    cases h with
    | cons _ _ after =>
      rw [textOf_cons, Text.byteSize_append, ← Nat.add_assoc]
      exact ih after

theorem head (h : Lexes offset t (k :: tokens)) :
    k.IsReadBefore (textOf tokens) ∧ k.offset = offset := by
  cases h with
  | cons offset_eq isRead after =>
    rw [after.eq_textOf] at isRead
    exact ⟨isRead, offset_eq⟩

/-- A token among others is what is read at its place. -/
theorem isReadBefore (h : Lexes offset t (ks ++ k :: tokens)) :
    k.IsReadBefore (textOf tokens) :=
  h.split.head.1

/-- A token begins after those in front of it. -/
theorem offset_eq (h : Lexes offset t (ks ++ k :: tokens)) :
    k.offset = offset + Text.byteSize (textOf ks) :=
  h.split.head.2

theorem exists_isReadBefore (h : Lexes offset t tokens) (hk : k ∈ tokens) :
    ∃ after, k.IsReadBefore after := by
  obtain ⟨before, after, rfl⟩ := List.append_of_mem hk
  exact ⟨textOf after, h.isReadBefore⟩

/-- Only an empty text has no tokens. -/
theorem eq_nil_of_textOf (h : Lexes offset t tokens) (htext : textOf tokens = []) :
    tokens = [] := by
  cases h with
  | nil => rfl
  | cons _ isRead _ =>
    obtain ⟨c, s, hc, -⟩ := isRead
    rw [textOf_cons, hc, List.cons_append] at htext
    cases htext

end Lexes

end WorkflowLens.Expression
