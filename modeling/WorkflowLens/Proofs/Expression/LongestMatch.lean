import Mathlib.Computability.Language
import WorkflowLens.Proofs.Expression.Tokens

/-!
# The longest match

The lexemes of each kind of token form a regular language, and that is all that the grammar of
expressions says about them.  `TokenKind.lexemes` writes these languages down, and the tokens of a
text are then fixed by one rule: at each place the token is the longest lexeme of any kind that
the text goes on with.  Two faults are left.  A character that begins no lexeme is a token of its
own, and so is all the rest of a text that opens a literal and never closes it.

The second fault has to be asked for first.  The text `'a''` begins with the literal `'a'`, but its
last two quotes are a pair inside a literal that goes on, so nothing in it is a literal at all.

The reader decides by the first character which kind it tries, and looks no further.  That is
enough because no two kinds of lexemes begin with the same character, apart from the fixed ones,
which are tried in such an order that none comes before one that it begins.

* `TokenKind.lexemes`, `openLiteral`: the lexemes of a kind, and the literals that are not closed.
* `IsMatch`: what the rule allows at a place, with `IsMatch.unique`.
* `isMatch_lexemeAt`: the reader keeps to the rule.
* `eq_tokenize_iff`: the tokens of a text are the only ones that keep to the rule.
-/

namespace WorkflowLens.Expression

open scoped Computability

/-! ## Lexemes as languages -/

/-- The texts of one character that satisfies `p`. -/
def oneOf (p : Char → Bool) : Language Char := {w | ∃ c, p c = true ∧ w = [c]}

/-- What stands between the quotes of a literal: other characters, and quotes in pairs. -/
def literalContent : Language Char := (oneOf (· != '\x27') + {['\x27', '\x27']})∗

/-- The beginnings of literals, quote included, that are not closed where they end. -/
def openLiteral : Language Char := oneOf (· == '\x27') * literalContent

/-- Runs of digits, not empty. -/
def digits : Language Char := oneOf Text.isDigit * (oneOf Text.isDigit)∗

/-- The lexemes of a kind. -/
def TokenKind.lexemes : TokenKind → Language Char
  | .opening => {['$', '{', '{']}
  | .closing => {['}', '}']}
  | .blanks => oneOf isExpressionBlank * (oneOf isExpressionBlank)∗
  | .identifier => oneOf isIdentifierStart * (oneOf isIdentifierRest)∗
  | .number => digits * (1 + oneOf (· == '.') * digits)
  | .string => openLiteral * oneOf (· == '\x27')
  | .dot => {['.']}
  | .star => {['*']}
  | .leftBracket => {['[']}
  | .rightBracket => {[']']}
  | .leftParen => {['(']}
  | .rightParen => {[')']}
  | .comma => {[',']}
  | .equal => {['=', '=']}
  | .notEqual => {['!', '=']}
  | .and => {['&', '&']}
  | .or => {['|', '|']}
  | .lessEqual => {['<', '=']}
  | .greaterEqual => {['>', '=']}
  | .less => {['<']}
  | .greater => {['>']}
  | .not => {['!']}
  | .error => 0

/-- The text begins with no lexeme. -/
def NoLexeme (t : Text) : Prop := ∀ kind : TokenKind, ∀ w ∈ kind.lexemes, ¬ w <+: t

/-- The token that the rule of the longest match allows at the beginning of a text. -/
inductive IsMatch (t : Text) : TokenKind → Text → Prop
  | longest {kind : TokenKind} {w : Text} (closed : t ∉ openLiteral) (mem : w ∈ kind.lexemes)
      (isPrefix : w <+: t)
      (longest : ∀ other : TokenKind, ∀ v ∈ other.lexemes, v <+: t → v.length ≤ w.length) :
      IsMatch t kind w
  | unclosed (opens : t ∈ openLiteral) : IsMatch t .error t
  | unknown {c : Char} {rest : Text} (closed : t ∉ openLiteral) (cons_eq : t = c :: rest)
      (none : NoLexeme t) : IsMatch t .error [c]

/-! ## Membership -/

theorem mem_oneOf_mul_iff {p : Char → Bool} {l : Language Char} {w : Text} :
    w ∈ oneOf p * l ↔ ∃ c s, w = c :: s ∧ p c = true ∧ s ∈ l := by
  rw [Language.mem_mul]
  constructor
  · rintro ⟨_, ⟨c, hc, rfl⟩, s, hs, rfl⟩
    exact ⟨c, s, rfl, hc, hs⟩
  · rintro ⟨c, s, rfl, hc, hs⟩
    exact ⟨[c], ⟨c, hc, rfl⟩, s, hs, rfl⟩

theorem mem_kstar_oneOf_iff {p : Char → Bool} {w : Text} :
    w ∈ (oneOf p)∗ ↔ ∀ c ∈ w, p c = true := by
  rw [Language.mem_kstar]
  constructor
  · rintro ⟨pieces, rfl, hpieces⟩ c hc
    obtain ⟨piece, hmem, hpiece⟩ := List.mem_flatten.mp hc
    obtain ⟨d, hd, rfl⟩ := hpieces piece hmem
    rw [List.mem_singleton.mp hpiece]
    exact hd
  · intro hw
    refine ⟨w.map fun c => [c], by rw [← List.flatMap_def, List.flatMap_singleton'], ?_⟩
    intro piece hpiece
    obtain ⟨c, hc, rfl⟩ := List.mem_map.mp hpiece
    exact ⟨c, hw c hc, rfl⟩

theorem mem_digits_iff {w : Text} : w ∈ digits ↔ w ≠ [] ∧ ∀ d ∈ w, Text.isDigit d = true := by
  rw [digits, mem_oneOf_mul_iff]
  constructor
  · rintro ⟨c, s, rfl, hc, hs⟩
    exact ⟨List.cons_ne_nil _ _, List.forall_mem_cons.mpr ⟨hc, mem_kstar_oneOf_iff.mp hs⟩⟩
  · rintro ⟨hne, hw⟩
    obtain ⟨c, s, rfl⟩ := List.exists_cons_of_ne_nil hne
    obtain ⟨hc, hs⟩ := List.forall_mem_cons.mp hw
    exact ⟨c, s, rfl, hc, mem_kstar_oneOf_iff.mpr hs⟩

theorem mem_number_iff {w : Text} :
    w ∈ TokenKind.number.lexemes ↔
      ∃ whole ∈ digits, w = whole ∨ ∃ fraction ∈ digits, w = whole ++ '.' :: fraction := by
  rw [TokenKind.lexemes, mul_add, mul_one, Language.mem_add, Language.mem_mul]
  simp only [mem_oneOf_mul_iff, beq_iff_eq]
  constructor
  · rintro (hw | ⟨whole, hwhole, _, ⟨_, fraction, rfl, rfl, hfraction⟩, rfl⟩)
    · exact ⟨w, hw, .inl rfl⟩
    · exact ⟨whole, hwhole, .inr ⟨fraction, hfraction, rfl⟩⟩
  · rintro ⟨whole, hwhole, rfl | ⟨fraction, hfraction, rfl⟩⟩
    · exact .inl hwhole
    · exact .inr ⟨whole, hwhole, '.' :: fraction, ⟨'.', fraction, rfl, rfl, hfraction⟩, rfl⟩

theorem mem_literalContent_iff {w : Text} :
    w ∈ literalContent ↔ w = [] ∨ (∃ c s, w = c :: s ∧ c ≠ '\x27' ∧ s ∈ literalContent) ∨
      ∃ s, w = '\x27' :: '\x27' :: s ∧ s ∈ literalContent := by
  have hunfold : literalContent
      = 1 + (oneOf (· != '\x27') * literalContent + {['\x27', '\x27']} * literalContent) := by
    rw [← add_mul, literalContent, Language.one_add_self_mul_kstar_eq_kstar]
  have hpair : w ∈ ({['\x27', '\x27']} : Language Char) * literalContent ↔
      ∃ s, w = '\x27' :: '\x27' :: s ∧ s ∈ literalContent := by
    rw [Language.mem_mul]
    constructor
    · rintro ⟨_, rfl, s, hs, rfl⟩
      exact ⟨s, rfl, hs⟩
    · rintro ⟨s, rfl, hs⟩
      exact ⟨_, rfl, s, hs, rfl⟩
  conv_lhs => rw [hunfold]
  rw [Language.mem_add, Language.mem_one, Language.mem_add, mem_oneOf_mul_iff, hpair]
  simp only [bne_iff_ne]

theorem mem_openLiteral_iff {w : Text} :
    w ∈ openLiteral ↔ ∃ body ∈ literalContent, w = '\x27' :: body := by
  rw [openLiteral, mem_oneOf_mul_iff]
  simp only [beq_iff_eq]
  constructor
  · rintro ⟨_, body, rfl, rfl, hbody⟩
    exact ⟨body, hbody, rfl⟩
  · rintro ⟨body, hbody, rfl⟩
    exact ⟨'\x27', body, rfl, rfl, hbody⟩

theorem mem_string_iff {w : Text} :
    w ∈ TokenKind.string.lexemes ↔
      ∃ body ∈ literalContent, w = '\x27' :: (body ++ ['\x27']) := by
  rw [TokenKind.lexemes, Language.mem_mul]
  constructor
  · rintro ⟨_, hopen, _, ⟨c, hc, rfl⟩, rfl⟩
    obtain ⟨body, hbody, rfl⟩ := mem_openLiteral_iff.mp hopen
    rw [beq_iff_eq.mp hc]
    exact ⟨body, hbody, rfl⟩
  · rintro ⟨body, hbody, rfl⟩
    exact ⟨'\x27' :: body, mem_openLiteral_iff.mpr ⟨body, hbody, rfl⟩, ['\x27'], ⟨'\x27', rfl, rfl⟩,
      rfl⟩

/-- The fixed lexemes are the lexemes of their kinds. -/
theorem mem_lexemes_of_mem_fixedLexemes :
    ∀ entry ∈ fixedLexemes, entry.2 ∈ entry.1.lexemes := by
  simp only [fixedLexemes, List.forall_mem_cons]
  refine ⟨rfl, rfl, rfl, rfl, rfl, rfl, rfl, rfl, rfl, rfl, rfl, rfl, rfl, rfl, rfl, rfl, rfl, rfl,
    ?_⟩
  simp

/-! ## Kinds by their first characters -/

/-- The only kind that has lexemes beginning with a character, unless they are fixed ones. -/
def kindOf? (c : Char) : Option TokenKind :=
  if isExpressionBlank c then some .blanks
  else if isIdentifierStart c then some .identifier
  else if Text.isDigit c then some .number
  else if c = '\x27' then some .string
  else none

theorem not_isExpressionBlank_of_isIdentifierStart {c : Char} (h : isIdentifierStart c = true) :
    ¬ isExpressionBlank c = true := by
  intro hblank
  simp only [isExpressionBlank, Bool.or_eq_true, beq_iff_eq] at hblank
  rcases hblank with ((rfl | rfl) | rfl) | rfl <;> exact absurd h (by decide)

theorem kindOf?_of_isIdentifierStart {c : Char} (h : isIdentifierStart c = true) :
    kindOf? c = some .identifier := by
  rw [kindOf?, if_neg (not_isExpressionBlank_of_isIdentifierStart h), if_pos h]

theorem kindOf?_of_isDigit {c : Char} (h : Text.isDigit c = true) : kindOf? c = some .number := by
  have hblank : ¬ isExpressionBlank c = true := by
    intro hblank
    simp only [isExpressionBlank, Bool.or_eq_true, beq_iff_eq] at hblank
    rcases hblank with ((rfl | rfl) | rfl) | rfl <;> exact absurd h (by decide)
  have hstart : ¬ isIdentifierStart c = true := by
    intro hstart
    simp only [isIdentifierStart, Text.isLetter, Text.isDigit, Bool.or_eq_true, Bool.and_eq_true,
      decide_eq_true_eq, beq_iff_eq, Char.le_def, UInt32.le_iff_toNat_le] at h hstart
    rcases hstart with (hlower | hupper) | rfl
    · have : 'a'.val.toNat = 97 := rfl
      have : '9'.val.toNat = 57 := rfl
      omega
    · have : 'A'.val.toNat = 65 := rfl
      have : '9'.val.toNat = 57 := rfl
      omega
    · exact absurd h (by decide)
  rw [kindOf?, if_neg hblank, if_neg hstart, if_pos h]

theorem kindOf?_of_mem_fixedLexemes :
    ∀ entry ∈ fixedLexemes, ∀ c ∈ entry.2.head?, kindOf? c = none := by
  have hall : (fixedLexemes.all fun entry =>
      entry.2.head?.all fun c => (kindOf? c).isNone) = true := by decide
  intro entry hentry c hc
  have hnone := List.all_eq_true.mp hall entry hentry
  rw [Option.mem_def.mp hc] at hnone
  exact Option.isNone_iff_eq_none.mp hnone

/-- The first character of a lexeme tells its kind, unless it is a fixed one. -/
theorem kindOf?_of_cons_mem {kind : TokenKind} {c : Char} {s : Text} (h : c :: s ∈ kind.lexemes) :
    kindOf? c = some kind ∨ kindOf? c = none ∧ (kind, c :: s) ∈ fixedLexemes := by
  cases kind with
  | blanks =>
    obtain ⟨_, _, heq, hc, -⟩ := mem_oneOf_mul_iff.mp h
    cases heq
    exact .inl (if_pos hc)
  | identifier =>
    obtain ⟨_, _, heq, hc, -⟩ := mem_oneOf_mul_iff.mp h
    cases heq
    exact .inl (kindOf?_of_isIdentifierStart hc)
  | number =>
    obtain ⟨whole, hwhole, hw⟩ := mem_number_iff.mp h
    obtain ⟨hne, hdigits⟩ := mem_digits_iff.mp hwhole
    obtain ⟨d, rest, rfl⟩ := List.exists_cons_of_ne_nil hne
    have hc : c = d := by
      rcases hw with heq | ⟨_, -, heq⟩ <;> exact (List.cons.inj heq).1
    exact .inl (kindOf?_of_isDigit (hc ▸ hdigits d (List.mem_cons_self ..)))
  | string =>
    obtain ⟨body, -, heq⟩ := mem_string_iff.mp h
    cases heq
    exact .inl rfl
  | error => exact absurd h (Language.notMem_zero _)
  | _ =>
    refine .inr ?_
    have hw : c :: s = _ := h
    refine (and_iff_right_of_imp fun hmem => kindOf?_of_mem_fixedLexemes _ hmem c rfl).mpr ?_
    rw [hw]
    decide

theorem nil_notMem_lexemes (kind : TokenKind) : [] ∉ kind.lexemes := by
  intro h
  cases kind with
  | blanks =>
    obtain ⟨_, _, heq, -⟩ := mem_oneOf_mul_iff.mp h
    cases heq
  | identifier =>
    obtain ⟨_, _, heq, -⟩ := mem_oneOf_mul_iff.mp h
    cases heq
  | number =>
    obtain ⟨whole, hwhole, rfl | ⟨_, -, heq⟩⟩ := mem_number_iff.mp h
    · exact (mem_digits_iff.mp hwhole).1 rfl
    · exact List.append_ne_nil_of_right_ne_nil _ (List.cons_ne_nil _ _) heq.symm
  | string =>
    obtain ⟨_, -, heq⟩ := mem_string_iff.mp h
    cases heq
  | error => exact Language.notMem_zero _ h
  | _ => cases h

/-- What a character of a lexeme can be, unless the lexeme is a literal. -/
theorem char_cases_of_mem_lexemes {kind : TokenKind} {w : Text} {d : Char} (h : w ∈ kind.lexemes)
    (hd : d ∈ w) :
    kind = .string ∨ kind = .identifier ∧ isIdentifierRest d = true ∨
      isExpressionBlank d = true ∨ Text.isDigit d = true ∨ ∃ entry ∈ fixedLexemes, d ∈ entry.2 := by
  cases w with
  | nil => cases hd
  | cons c s =>
    rcases kindOf?_of_cons_mem h with hkind | ⟨-, hfixed⟩
    · -- the first character tells the kind
      rw [kindOf?] at hkind
      split at hkind
      · next hblank =>
        cases hkind
        obtain ⟨_, _, heq, -, hrest⟩ := mem_oneOf_mul_iff.mp h
        cases heq
        rcases List.mem_cons.mp hd with rfl | hin
        · exact .inr (.inr (.inl hblank))
        · exact .inr (.inr (.inl (mem_kstar_oneOf_iff.mp hrest d hin)))
      split at hkind
      · next hstart =>
        cases hkind
        obtain ⟨_, _, heq, -, hrest⟩ := mem_oneOf_mul_iff.mp h
        cases heq
        rcases List.mem_cons.mp hd with rfl | hin
        · exact .inr (.inl ⟨rfl, isIdentifierRest_of_mem (t := []) hstart (List.mem_cons_self ..)⟩)
        · exact .inr (.inl ⟨rfl, mem_kstar_oneOf_iff.mp hrest d hin⟩)
      split at hkind
      · cases hkind
        obtain ⟨whole, hwhole, heq | ⟨fraction, hfraction, heq⟩⟩ := mem_number_iff.mp h
        · exact .inr (.inr (.inr (.inl ((mem_digits_iff.mp hwhole).2 d (heq ▸ hd)))))
        · rw [heq, List.mem_append, List.mem_cons] at hd
          rcases hd with hin | rfl | hin
          · exact .inr (.inr (.inr (.inl ((mem_digits_iff.mp hwhole).2 d hin))))
          · exact .inr (.inr (.inr (.inr ⟨(.dot, ['.']), by decide, by decide⟩)))
          · exact .inr (.inr (.inr (.inl ((mem_digits_iff.mp hfraction).2 d hin))))
      split at hkind
      · cases hkind
        exact .inl rfl
      · cases hkind
    · exact .inr (.inr (.inr (.inr ⟨_, hfixed, hd⟩)))

/-! ## The longest lexeme of a kind -/

theorem isPrefix_takeWhile {p : Char → Bool} {v t : Text} (hv : ∀ d ∈ v, p d = true)
    (h : v <+: t) : v <+: t.takeWhile p := by
  obtain ⟨rest, rfl⟩ := h
  rw [List.takeWhile_append_of_pos hv]
  exact List.prefix_append _ _

/-- A literal that is closed is a literal. -/
theorem cons_literalBody_mem {t : Text} (h : (literalBody t).1 = true) :
    ∃ body ∈ literalContent, (literalBody t).2 = body ++ ['\x27'] := by
  fun_induction literalBody t with
  | case1 => cases h
  | case2 t closed body heq ih =>
    rw [heq] at ih
    obtain ⟨content, hcontent, hbody⟩ := ih h
    exact ⟨'\x27' :: '\x27' :: content,
      mem_literalContent_iff.mpr (.inr (.inr ⟨content, rfl, hcontent⟩)),
      congrArg ('\x27' :: '\x27' :: ·) hbody⟩
  | case3 t hpair => exact ⟨[], mem_literalContent_iff.mpr (.inl rfl), rfl⟩
  | case4 c t hpair hquote closed body heq ih =>
    rw [heq] at ih
    obtain ⟨content, hcontent, hbody⟩ := ih h
    have hmem : c :: content ∈ literalContent :=
      mem_literalContent_iff.mpr (.inr (.inl ⟨c, content, rfl, hquote, hcontent⟩))
    exact ⟨c :: content, hmem, congrArg (c :: ·) hbody⟩

/-- A literal is not closed exactly if the whole text is content of one. -/
theorem literalBody_eq_false_iff {t : Text} : (literalBody t).1 = false ↔ t ∈ literalContent := by
  fun_induction literalBody t with
  | case1 => exact iff_of_true rfl (mem_literalContent_iff.mpr (.inl rfl))
  | case2 t closed body heq ih =>
    rw [heq] at ih
    rw [mem_literalContent_iff, ih]
    simp
  | case3 t hpair =>
    rw [mem_literalContent_iff]
    simp only [Bool.true_eq_false, false_iff]
    rintro (hnil | ⟨c, s, heq, hc, -⟩ | ⟨s, heq, -⟩)
    · cases hnil
    · cases heq
      exact hc rfl
    · cases heq
      exact hpair s rfl rfl
  | case4 c t hpair hquote closed body heq ih =>
    rw [heq] at ih
    rw [mem_literalContent_iff, ih]
    simp [hquote]

/-- No literal at the beginning of a text is longer than the one that is read there. -/
theorem length_le_literalBody {t content : Text} (hcontent : content ∈ literalContent)
    (hpre : content ++ ['\x27'] <+: t) : content.length + 1 ≤ (literalBody t).2.length := by
  fun_induction literalBody t generalizing content with
  | case1 => simp at hpre
  | case2 t closed body heq ih =>
    rw [heq] at ih
    rcases mem_literalContent_iff.mp hcontent with rfl | ⟨c, s, rfl, hc, -⟩ | ⟨s, rfl, hs⟩
    · simp
    · exact absurd (List.cons_prefix_cons.mp hpre).1 hc
    · have hrest := (List.cons_prefix_cons.mp (List.cons_prefix_cons.mp hpre).2).2
      simpa using ih hs hrest
  | case3 t hpair =>
    rcases mem_literalContent_iff.mp hcontent with rfl | ⟨c, s, rfl, hc, -⟩ | ⟨s, rfl, hs⟩
    · simp
    · exact absurd (List.cons_prefix_cons.mp hpre).1 hc
    · obtain ⟨rest, hrest⟩ := (List.cons_prefix_cons.mp hpre).2
      exact absurd hrest.symm (hpair _ rfl)
  | case4 c t hpair hquote closed body heq ih =>
    rw [heq] at ih
    rcases mem_literalContent_iff.mp hcontent with rfl | ⟨d, s, rfl, hd, hs⟩ | ⟨s, rfl, hs⟩
    · simp
    · simpa using ih hs (List.cons_prefix_cons.mp hpre).2
    · exact absurd (List.cons_prefix_cons.mp hpre).1.symm hquote

/-- What is read as a number is one. -/
theorem numberLexeme_mem {c : Char} {t : Text} (hc : Text.isDigit c = true) :
    numberLexeme (c :: t) ∈ TokenKind.number.lexemes := by
  have hwhole : (c :: t).takeWhile Text.isDigit ∈ digits := by
    rw [mem_digits_iff, List.takeWhile_cons_of_pos hc]
    exact ⟨List.cons_ne_nil _ _,
      List.forall_mem_cons.mpr ⟨hc, fun d hd => List.mem_takeWhile_imp hd⟩⟩
  refine mem_number_iff.mpr ⟨_, hwhole, ?_⟩
  rcases numberLexeme_cases (c :: t) with hnumber | ⟨d, fraction, -, hfraction, -, hnumber⟩
  · exact .inl hnumber
  · exact .inr ⟨d :: fraction, mem_digits_iff.mpr ⟨List.cons_ne_nil _ _, hfraction⟩, hnumber⟩

/-- No number at the beginning of a text is longer than the one that is read there. -/
theorem length_le_numberLexeme {t v : Text} (hv : v ∈ TokenKind.number.lexemes) (hpre : v <+: t) :
    v.length ≤ (numberLexeme t).length := by
  obtain ⟨whole, hwhole, rfl | ⟨fraction, hfraction, rfl⟩⟩ := mem_number_iff.mp hv
  · have hle := (isPrefix_takeWhile (mem_digits_iff.mp hwhole).2 hpre).length_le
    rcases numberLexeme_cases t with hnumber | ⟨d, rest, -, -, -, hnumber⟩
    · rw [hnumber]
      exact hle
    · rw [hnumber, List.length_append]
      exact Nat.le_add_right_of_le hle
  · obtain ⟨hne, hdigits⟩ := mem_digits_iff.mp hfraction
    obtain ⟨d, fraction, rfl⟩ := List.exists_cons_of_ne_nil hne
    obtain ⟨rest, rfl⟩ := hpre
    have hall := (mem_digits_iff.mp hwhole).2
    have hpoint : ¬ Text.isDigit '.' = true := by decide
    have htake : (whole ++ '.' :: d :: fraction ++ rest).takeWhile Text.isDigit = whole := by
      rw [List.append_assoc, List.takeWhile_append_of_pos hall, List.cons_append,
        List.takeWhile_cons_of_neg hpoint, List.append_nil]
    have hdrop : (whole ++ '.' :: d :: fraction ++ rest).dropWhile Text.isDigit
        = '.' :: (d :: fraction ++ rest) := by
      rw [List.append_assoc, List.dropWhile_append_of_pos hall, List.cons_append,
        List.dropWhile_cons_of_neg hpoint]
    have hrun := (isPrefix_takeWhile hdigits (List.prefix_append (d :: fraction) rest)).length_le
    cases hread : (d :: fraction ++ rest).takeWhile Text.isDigit with
    | nil =>
      rw [hread] at hrun
      exact absurd hrun (Nat.not_succ_le_zero _)
    | cons e read =>
      have hnumber : numberLexeme (whole ++ '.' :: d :: fraction ++ rest)
          = whole ++ '.' :: e :: read := by
        rw [numberLexeme, hdrop, htake]
        simp only [hread]
      rw [hread, List.length_cons] at hrun
      rw [hnumber]
      simp only [List.length_append, List.length_cons] at hrun ⊢
      omega

/-- Of the fixed lexemes none stands after one that it begins with. -/
theorem pairwise_fixedLexemes : fixedLexemes.Pairwise fun a b => ¬ a.2 <+: b.2 := by
  decide

/-- No fixed lexeme at the beginning of a text is longer than the one that is found first. -/
theorem length_le_of_find?_fixedLexemes {t : Text} {found entry : TokenKind × Text}
    (hfound : fixedLexemes.find? (fun (_, lexeme) => Text.startsWith lexeme t) = some found)
    (hentry : entry ∈ fixedLexemes) (hpre : entry.2 <+: t) : entry.2.length ≤ found.2.length := by
  obtain ⟨hbegins, before, after, hsplit, hbefore⟩ := List.find?_eq_some_iff_append.mp hfound
  have hpairs := pairwise_fixedLexemes
  rw [hsplit] at hentry hpairs
  rcases List.mem_append.mp hentry with hmem | hmem
  · have hno := hbefore entry hmem
    rw [Bool.not_eq_true', ← Bool.not_eq_true] at hno
    exact absurd (Text.startsWith_iff.mpr hpre) hno
  rcases List.mem_cons.mp hmem with rfl | hmem
  · exact Nat.le_refl _
  · have hnot := List.rel_of_pairwise_cons (List.pairwise_append.mp hpairs).2.1 hmem
    rcases List.prefix_or_prefix_of_prefix hpre (Text.startsWith_iff.mp hbegins) with hle | hle
    · exact hle.length_le
    · exact absurd hle hnot

/-! ## The rule at one place -/

theorem notMem_openLiteral_of_ne {c : Char} {t : Text} (hc : c ≠ '\x27') :
    c :: t ∉ openLiteral := by
  intro h
  obtain ⟨_, -, heq⟩ := mem_openLiteral_iff.mp h
  exact hc (List.cons.inj heq).1

/-- The rule allows a lexeme of the kind of the first character that is the longest one of its
kind. -/
theorem IsMatch.of_kindOf? {c : Char} {t w : Text} {kind : TokenKind}
    (hkind : kindOf? c = some kind) (closed : c :: t ∉ openLiteral) (mem : w ∈ kind.lexemes)
    (isPrefix : w <+: c :: t)
    (longest : ∀ v ∈ kind.lexemes, v <+: c :: t → v.length ≤ w.length) :
    IsMatch (c :: t) kind w := by
  refine .longest closed mem isPrefix fun other v hv hpre => ?_
  cases v with
  | nil => exact absurd hv (nil_notMem_lexemes other)
  | cons d v =>
    obtain rfl := (List.cons_prefix_cons.mp hpre).1
    rcases kindOf?_of_cons_mem hv with hother | ⟨hnone, -⟩
    · rw [hkind, Option.some.injEq] at hother
      exact longest _ (hother ▸ hv) hpre
    · rw [hkind] at hnone
      cases hnone

/-- The longest run of characters of a class is the longest lexeme that begins with one of another
class and goes on with the first one. -/
theorem IsMatch.run {c : Char} {t : Text} {kind : TokenKind} {first rest : Char → Bool}
    (hkind : kindOf? c = some kind) (hlexemes : kind.lexemes = oneOf first * (oneOf rest)∗)
    (hc : first c = true) (hquote : c ≠ '\x27') :
    IsMatch (c :: t) kind (c :: t.takeWhile rest) := by
  refine .of_kindOf? hkind (notMem_openLiteral_of_ne hquote) ?_ ?_ fun v hv hpre => ?_
  · rw [hlexemes]
    exact mem_oneOf_mul_iff.mpr
      ⟨c, _, rfl, hc, mem_kstar_oneOf_iff.mpr fun d hd => List.mem_takeWhile_imp hd⟩
  · exact (List.prefix_cons_inj c).mpr (List.takeWhile_prefix rest)
  · rw [hlexemes] at hv
    obtain ⟨d, s, rfl, -, hs⟩ := mem_oneOf_mul_iff.mp hv
    have hrun := isPrefix_takeWhile (mem_kstar_oneOf_iff.mp hs) (List.cons_prefix_cons.mp hpre).2
    exact Nat.succ_le_succ hrun.length_le

/-- **The reader takes the longest match.** -/
theorem isMatch_lexemeAt {c : Char} {t w : Text} {kind : TokenKind}
    (h : lexemeAt c t = (kind, w)) : IsMatch (c :: t) kind w := by
  rw [lexemeAt] at h
  split at h
  · next hblank =>
    cases h
    exact .run (if_pos hblank) rfl hblank (by rintro rfl; exact absurd hblank (by decide))
  next hblank =>
  split at h
  · next hstart =>
    cases h
    exact .run (kindOf?_of_isIdentifierStart hstart) rfl hstart
      (by rintro rfl; exact absurd hstart (by decide))
  next hstart =>
  split at h
  · next hdigit =>
    cases h
    exact .of_kindOf? (kindOf?_of_isDigit hdigit)
      (notMem_openLiteral_of_ne (by rintro rfl; exact absurd hdigit (by decide)))
      (numberLexeme_mem hdigit) (numberLexeme_isPrefix _) fun v => length_le_numberLexeme
  next hdigit =>
  split at h
  · next hquote =>
    subst hquote
    cases h
    cases hclosed : (literalBody t).1 with
    | true =>
      obtain ⟨content, hcontent, hbody⟩ := cons_literalBody_mem hclosed
      have hopen : '\x27' :: t ∉ openLiteral := by
        intro hopen
        obtain ⟨_, hmem, heq⟩ := mem_openLiteral_iff.mp hopen
        cases heq
        rw [← literalBody_eq_false_iff, hclosed] at hmem
        cases hmem
      refine .of_kindOf? rfl hopen (mem_string_iff.mpr ⟨content, hcontent, by rw [hbody]⟩)
        ((List.prefix_cons_inj _).mpr (literalBody_isPrefix t)) fun v hv hpre => ?_
      obtain ⟨other, hother, rfl⟩ := mem_string_iff.mp hv
      have hle := length_le_literalBody hother (List.cons_prefix_cons.mp hpre).2
      simpa using hle
    | false =>
      rw [literalBody_eq_self hclosed]
      exact .unclosed (mem_openLiteral_iff.mpr ⟨t, literalBody_eq_false_iff.mp hclosed, rfl⟩)
  next hquote =>
  have hopen := notMem_openLiteral_of_ne (t := t) hquote
  have hnone : kindOf? c = none := by
    rw [kindOf?, if_neg hblank, if_neg hstart, if_neg hdigit, if_neg hquote]
  -- only a fixed lexeme can begin with the character
  have hfixed : ∀ other : TokenKind, ∀ v ∈ other.lexemes, v <+: c :: t →
      (other, v) ∈ fixedLexemes := by
    intro other v hv hpre
    cases v with
    | nil => exact absurd hv (nil_notMem_lexemes other)
    | cons d v =>
      obtain rfl := (List.cons_prefix_cons.mp hpre).1
      rcases kindOf?_of_cons_mem hv with hsome | ⟨-, hmem⟩
      · rw [hnone] at hsome
        cases hsome
      · exact hmem
  split at h
  · next found hfound =>
    cases h
    have hbegins : Text.startsWith w (c :: t) = true := by simpa using List.find?_some hfound
    exact .longest hopen (mem_lexemes_of_mem_fixedLexemes _ (List.mem_of_find?_eq_some hfound))
      (Text.startsWith_iff.mp hbegins) fun other v hv hpre =>
        length_le_of_find?_fixedLexemes hfound (hfixed other v hv hpre) hpre
  · next hnotFound =>
    cases h
    refine .unknown hopen rfl fun other v hv hpre => ?_
    exact List.find?_eq_none.mp hnotFound _ (hfixed other v hv hpre) (Text.startsWith_iff.mpr hpre)

/-- Two kinds have no lexeme in common. -/
theorem eq_of_mem_lexemes {kind other : TokenKind} {w : Text} (hkind : w ∈ kind.lexemes)
    (hother : w ∈ other.lexemes) : kind = other := by
  have hfixed : ∀ a ∈ fixedLexemes, ∀ b ∈ fixedLexemes, a.2 = b.2 → a.1 = b.1 := by decide
  cases w with
  | nil => exact absurd hkind (nil_notMem_lexemes kind)
  | cons c s =>
    rcases kindOf?_of_cons_mem hkind with hc | ⟨hc, hmem⟩ <;>
      rcases kindOf?_of_cons_mem hother with hd | ⟨hd, hmem'⟩
    · exact Option.some.inj (hc.symm.trans hd)
    · cases hc.symm.trans hd
    · cases hc.symm.trans hd
    · exact hfixed _ hmem _ hmem' rfl

/-- **The rule allows one token only.** -/
theorem IsMatch.unique {t v w : Text} {kind other : TokenKind} (h : IsMatch t kind w)
    (h' : IsMatch t other v) : kind = other ∧ w = v := by
  cases h with
  | longest closed mem isPrefix longest =>
    cases h' with
    | longest _ mem' isPrefix' longest' =>
      have hlength := Nat.le_antisymm (longest' _ _ mem isPrefix) (longest _ _ mem' isPrefix')
      have hsame : w = v := by
        rcases List.prefix_or_prefix_of_prefix isPrefix isPrefix' with hle | hle
        · exact hle.eq_of_length hlength
        · exact (hle.eq_of_length hlength.symm).symm
      exact ⟨eq_of_mem_lexemes mem (hsame ▸ mem'), hsame⟩
    | unclosed opens => exact absurd opens closed
    | unknown _ _ none => exact absurd isPrefix (none _ _ mem)
  | unclosed opens =>
    cases h' with
    | longest closed => exact absurd opens closed
    | unclosed => exact ⟨rfl, rfl⟩
    | unknown closed => exact absurd opens closed
  | unknown closed cons_eq none =>
    cases h' with
    | longest _ mem isPrefix => exact absurd isPrefix (none _ _ mem)
    | unclosed opens => exact absurd opens closed
    | unknown _ cons_eq' =>
      cases cons_eq.symm.trans cons_eq'
      exact ⟨rfl, rfl⟩

/-! ## The rule in a text -/

/-- The tokens keep to the rule: at the place of each one, which is a byte offset, it is what the
rule allows there. -/
def KeepsRule (offset : Nat) (tokens : List Token) : Prop :=
  ∀ before k after, tokens = before ++ k :: after →
    k.text ≠ [] ∧ k.offset = offset + Text.byteSize (textOf before) ∧
      IsMatch (k.text ++ textOf after) k.kind k.text

theorem keepsRule_cons_iff {offset : Nat} {k : Token} {tokens : List Token} :
    KeepsRule offset (k :: tokens) ↔
      (k.text ≠ [] ∧ k.offset = offset ∧ IsMatch (k.text ++ textOf tokens) k.kind k.text) ∧
        KeepsRule (offset + Text.byteSize k.text) tokens := by
  constructor
  · intro h
    refine ⟨h [] k tokens rfl, fun before l after heq => ?_⟩
    have hl := h (k :: before) l after (by rw [heq, List.cons_append])
    rw [textOf_cons, Text.byteSize_append, ← Nat.add_assoc] at hl
    exact hl
  · rintro ⟨hk, h⟩ before l after heq
    cases before with
    | nil =>
      cases heq
      exact hk
    | cons first before =>
      rw [List.cons_append, List.cons.injEq] at heq
      obtain ⟨rfl, rfl⟩ := heq
      rw [textOf_cons, Text.byteSize_append, ← Nat.add_assoc]
      exact h before l after rfl

/-- The reader keeps to the rule. -/
theorem keepsRule_tokensFrom (offset : Nat) : ∀ t : Text, KeepsRule offset (tokensFrom offset 0 t)
  | [] => by
    rw [tokensFrom]
    intro before k after heq
    exact absurd heq.symm (List.append_ne_nil_of_right_ne_nil _ (List.cons_ne_nil _ _))
  | c :: t => by
    obtain ⟨kind, s, rest, ht, hfound, htokens⟩ := exists_tokensFrom_cons offset c t
    have hafter := keepsRule_tokensFrom (offset + Text.byteSize (c :: s)) rest
    have hrest := (lexes_tokensFrom (offset + Text.byteSize (c :: s)) rest).eq_textOf
    have hmatch := isMatch_lexemeAt hfound
    rw [htokens, keepsRule_cons_iff, ← hrest, List.cons_append, ← ht]
    exact ⟨⟨List.cons_ne_nil _ _, rfl, hmatch⟩, hafter⟩
termination_by t => t.length
decreasing_by rw [ht, List.length_cons, List.length_append]; omega

/-- Nothing but the reader keeps to the rule. -/
theorem KeepsRule.eq_tokensFrom {offset : Nat} {tokens : List Token} (h : KeepsRule offset tokens) :
    tokens = tokensFrom offset 0 (textOf tokens) := by
  induction tokens generalizing offset with
  | nil => rw [textOf_nil, tokensFrom]
  | cons k tokens ih =>
    obtain ⟨⟨hne, hoffset, hmatch⟩, hrest⟩ := keepsRule_cons_iff.mp h
    obtain ⟨c, s, htext⟩ := List.exists_cons_of_ne_nil hne
    obtain ⟨kind, read, rest, ht, hfound, htokens⟩ :=
      exists_tokensFrom_cons offset c (s ++ textOf tokens)
    have hread := isMatch_lexemeAt hfound
    rw [htext, List.cons_append] at hmatch
    obtain ⟨rfl, hsame⟩ := hmatch.unique hread
    obtain rfl := (List.cons.inj hsame).2
    obtain rfl := List.append_cancel_left ht
    rw [textOf_cons, htext, List.cons_append, htokens, ← htext, ← ih hrest, ← hoffset]

/-- **The tokens of a text are fixed by the rule of the longest match.**  A list of tokens is that
of the text exactly if the tokens make up the text and each one, which is not empty and stands
where those before it end, is what the rule allows at its place: the longest lexeme of any kind
there with that kind, a character that begins none, or all of the rest as a literal that is never
closed. -/
theorem eq_tokenize_iff {t : Text} {tokens : List Token} :
    tokens = tokenize t ↔ textOf tokens = t ∧ ∀ before k after, tokens = before ++ k :: after →
      k.text ≠ [] ∧ k.offset = Text.byteSize (textOf before) ∧
        IsMatch (k.text ++ textOf after) k.kind k.text := by
  have hrule : KeepsRule 0 tokens ↔ ∀ before k after, tokens = before ++ k :: after →
      k.text ≠ [] ∧ k.offset = Text.byteSize (textOf before) ∧
        IsMatch (k.text ++ textOf after) k.kind k.text := by
    simp only [KeepsRule, Nat.zero_add]
  rw [← hrule]
  constructor
  · rintro rfl
    exact ⟨(lexes_tokenize t).eq_textOf.symm, keepsRule_tokensFrom 0 t⟩
  · rintro ⟨rfl, hkeeps⟩
    exact hkeeps.eq_tokensFrom

/-- Two quotes at the end of a text close nothing. -/
example : tokenize "'a''".toList = [⟨.error, "'a''".toList, 0⟩] := by decide

end WorkflowLens.Expression
