import WorkflowLens.Proofs.Expression.Caret
import WorkflowLens.Proofs.Expression.LongestMatch

/-!
# Written paths are read back

A path written behind any text is found again at the end of it, as long as the text leaves room for
an operand.  The walk back over the tokens is easy; the point is that the path has tokens of its
own, that is, that the text is cut where the path begins.

A token in front of the border could reach over it in two ways only.  The path begins with a
character that begins identifiers, and apart from identifiers such a character stands in literals
alone.  So a lexeme over the border is an identifier that is not over, or a literal that is not
closed, and in both cases the text in front of the border ends with a token after which no operand
begins.

* `border_cases`: the lexemes that reach over the border.
* `IsMatch.append`, `tokenize_append`: what is read in front of the border is read there without
  what comes behind it, too.
* `segmentsBefore?_dottedTokens`: the walk back over the tokens of a path.
* `Path.ofBody?_append_dotted`: a path that is written at the end of a text is read back.
-/

namespace WorkflowLens.Expression

/-! ## Lexemes over a border -/

theorem not_isDigit_of_isIdentifierStart {c : Char} (h : isIdentifierStart c = true) :
    ¬ Text.isDigit c = true := by
  intro hdigit
  cases (kindOf?_of_isDigit hdigit).symm.trans (kindOf?_of_isIdentifierStart h)

theorem ne_quote_of_isIdentifierStart {c : Char} (h : isIdentifierStart c = true) :
    c ≠ '\x27' := by
  rintro rfl
  exact absurd h (by decide)

theorem not_isIdentifierStart_of_mem_fixedLexemes :
    ∀ entry ∈ fixedLexemes, ∀ c ∈ entry.2, ¬ isIdentifierStart c = true := by
  have hall : (fixedLexemes.all fun entry => entry.2.all fun c => !isIdentifierStart c) = true := by
    decide
  intro entry hentry c hc
  have hchars := List.all_eq_true.mp hall entry hentry
  simpa using List.all_eq_true.mp hchars c hc

/-- Content of a literal can end before every character that is no quote. -/
theorem mem_literalContent_of_append {d : Char} (hd : d ≠ '\x27') {t : Text} :
    ∀ s : Text, s ++ d :: t ∈ literalContent → s ∈ literalContent
  | [], _ => mem_literalContent_iff.mpr (.inl rfl)
  | c :: s, h => by
    rcases mem_literalContent_iff.mp h with hnil | ⟨_, _, heq, hc, hs⟩ | ⟨_, heq, hs⟩
    · cases hnil
    · cases heq
      exact mem_literalContent_iff.mpr
        (.inr (.inl ⟨c, s, rfl, hc, mem_literalContent_of_append hd s hs⟩))
    · cases s with
      | nil =>
        cases heq
        exact absurd rfl hd
      | cons e s =>
        cases heq
        exact mem_literalContent_iff.mpr
          (.inr (.inr ⟨s, rfl, mem_literalContent_of_append hd s hs⟩))

theorem mem_openLiteral_of_append {d : Char} (hd : d ≠ '\x27') {s t : Text} (hs : s ≠ [])
    (h : s ++ d :: t ∈ openLiteral) : s ∈ openLiteral := by
  obtain ⟨c, s, rfl⟩ := List.exists_cons_of_ne_nil hs
  obtain ⟨_, hbody, heq⟩ := mem_openLiteral_iff.mp h
  cases heq
  exact mem_openLiteral_iff.mpr ⟨s, mem_literalContent_of_append hd s hbody, rfl⟩

/-- **A lexeme that goes on with a character that could begin an identifier** is an identifier or a
literal up to there. -/
theorem border_cases {kind : TokenKind} {s t : Text} {d : Char} (hs : s ≠ [])
    (hd : isIdentifierStart d = true) (h : s ++ d :: t ∈ kind.lexemes) :
    s ∈ TokenKind.identifier.lexemes ∨ s ∈ openLiteral := by
  obtain ⟨c, s, rfl⟩ := List.exists_cons_of_ne_nil hs
  have hmem : d ∈ c :: s ++ d :: t := List.mem_append_right _ (List.mem_cons_self ..)
  rcases char_cases_of_mem_lexemes h hmem with rfl | ⟨rfl, -⟩ | hblank | hdigit |
    ⟨entry, hentry, hfixed⟩
  · obtain ⟨body, hbody, heq⟩ := mem_string_iff.mp h
    rw [List.cons_append] at heq
    obtain ⟨rfl, hrest⟩ := List.cons.inj heq
    -- the closing quote is behind the border, so the content reaches over it
    rcases List.eq_nil_or_concat t with rfl | ⟨u, e, rfl⟩
    · obtain ⟨-, hquote⟩ := List.append_inj' hrest rfl
      exact absurd (List.singleton_inj.mp hquote) (ne_quote_of_isIdentifierStart hd)
    · rw [List.concat_eq_append, ← List.cons_append, ← List.append_assoc] at hrest
      obtain ⟨hcontent, -⟩ := List.append_inj' hrest rfl
      rw [← hcontent] at hbody
      exact .inr (mem_openLiteral_iff.mpr
        ⟨s, mem_literalContent_of_append (ne_quote_of_isIdentifierStart hd) s hbody, rfl⟩)
  · obtain ⟨_, _, heq, hstart, hrest⟩ := mem_oneOf_mul_iff.mp h
    cases heq
    refine .inl (mem_oneOf_mul_iff.mpr ⟨c, s, rfl, hstart, mem_kstar_oneOf_iff.mpr ?_⟩)
    exact fun e he => mem_kstar_oneOf_iff.mp hrest e (List.mem_append_left _ he)
  · exact absurd hblank (not_isExpressionBlank_of_isIdentifierStart hd)
  · exact absurd hdigit (not_isDigit_of_isIdentifierStart hd)
  · exact absurd hd (not_isIdentifierStart_of_mem_fixedLexemes entry hentry d hfixed)

/-- Behind anything else than an identifier or a literal no lexeme reaches over the border. -/
theorem isPrefix_of_mem_lexemes {kind : TokenKind} {s t v : Text} {d : Char} (hs : s ≠ [])
    (hd : isIdentifierStart d = true) (hidentifier : s ∉ TokenKind.identifier.lexemes)
    (hopen : s ∉ openLiteral) (hv : v ∈ kind.lexemes) (hpre : v <+: s ++ d :: t) : v <+: s := by
  rcases List.prefix_or_prefix_of_prefix hpre (List.prefix_append s _) with hin | ⟨r, rfl⟩
  · exact hin
  · rw [List.prefix_append_right_inj] at hpre
    cases r with
    | nil => rw [List.append_nil]
    | cons e r =>
      obtain ⟨rfl, -⟩ := List.cons_prefix_cons.mp hpre
      exact absurd (border_cases hs hd hv) (not_or.mpr ⟨hidentifier, hopen⟩)

/-! ## Tokens in front of a border -/

/-- A text that begins an identifier behind the border, or nothing. -/
def StartsIdentifier (t : Text) : Prop := ∀ c ∈ t.head?, isIdentifierStart c = true

/-- A token that ends before the border, or after which an operand may begin, stays the same with
an identifier behind the border. -/
theorem IsMatch.append {s t w : Text} {kind : TokenKind} (h : IsMatch s kind w)
    (hends : w ≠ s ∨ kind.startsOperand = true) (ht : StartsIdentifier t) :
    IsMatch (s ++ t) kind w := by
  cases t with
  | nil =>
    rw [List.append_nil]
    exact h
  | cons d t =>
    have hd : isIdentifierStart d = true := ht d rfl
    have hover : s ≠ [] → s ∉ openLiteral → s ++ d :: t ∉ openLiteral := fun hs hopen hover =>
      hopen (mem_openLiteral_of_append (ne_quote_of_isIdentifierStart hd) hs hover)
    cases h with
    | longest closed mem isPrefix longest =>
      have hs : s ≠ [] := by
        rintro rfl
        rw [List.prefix_nil] at isPrefix
        exact nil_notMem_lexemes kind (isPrefix ▸ mem)
      have hidentifier : s ∉ TokenKind.identifier.lexemes := by
        intro hidentifier
        have hlength := longest _ s hidentifier (List.prefix_refl s)
        have hall : w = s := isPrefix.eq_of_length_le hlength
        have hkind := eq_of_mem_lexemes mem (hall ▸ hidentifier)
        rw [hkind] at hends
        exact hends.elim (fun hne => hne hall) Bool.false_ne_true
      exact .longest (hover hs closed) mem (isPrefix.trans (List.prefix_append s _))
        fun other v hv hpre =>
          longest other v hv (isPrefix_of_mem_lexemes hs hd hidentifier closed hv hpre)
    | unclosed => exact absurd hends (by simp [TokenKind.startsOperand])
    | unknown closed cons_eq none =>
      have hs : s ≠ [] := by
        rw [cons_eq]
        exact List.cons_ne_nil _ _
      have hidentifier : s ∉ TokenKind.identifier.lexemes := fun hidentifier =>
        none _ s hidentifier (List.prefix_refl s)
      refine .unknown (hover hs closed) (by rw [cons_eq]; rfl) fun other v hv hpre => ?_
      exact none other v hv (isPrefix_of_mem_lexemes hs hd hidentifier closed hv hpre)

/-- Tokens that keep to the rule and end where an operand may begin can be followed by those of a
text that begins with an identifier. -/
theorem KeepsRule.append {offset : Nat} {ks ls : List Token} (hks : KeepsRule offset ks)
    (hls : KeepsRule (offset + Text.byteSize (textOf ks)) ls)
    (hstart : StartsIdentifier (textOf ls))
    (hlast : ∀ k ∈ ks.getLast?, k.kind.startsOperand = true) : KeepsRule offset (ks ++ ls) := by
  induction ks generalizing offset with
  | nil => exact hls
  | cons k ks ih =>
    obtain ⟨⟨hne, hoffset, hmatch⟩, hrest⟩ := keepsRule_cons_iff.mp hks
    rw [textOf_cons, Text.byteSize_append, ← Nat.add_assoc] at hls
    have hends : k.text ≠ k.text ++ textOf ks ∨ k.kind.startsOperand = true := by
      cases ks with
      | nil => exact .inr (hlast k rfl)
      | cons l ks =>
        have hl := (keepsRule_cons_iff.mp hrest).1.1
        refine .inl fun hsame => hl ?_
        rw [textOf_cons] at hsame
        exact (List.append_eq_nil_iff.mp (List.self_eq_append_right.mp hsame)).1
    have hafter : ∀ l ∈ ks.getLast?, l.kind.startsOperand = true := by
      intro l hl
      refine hlast l ?_
      rw [List.getLast?_cons, Option.mem_def.mp hl]
      rfl
    rw [List.cons_append, keepsRule_cons_iff, textOf_append, ← List.append_assoc]
    exact ⟨⟨hne, hoffset, hmatch.append hends hstart⟩, ih hrest hls hafter⟩

/-- **Where an operand may begin, a text is cut in front of an identifier.** -/
theorem tokenize_append {s t : Text} (ht : StartsIdentifier t)
    (hlast : ∀ k ∈ (tokenize s).getLast?, k.kind.startsOperand = true) :
    tokenize (s ++ t) = tokenize s ++ tokensFrom (Text.byteSize s) 0 t := by
  have hs := (lexes_tokenize s).eq_textOf
  have htext := (lexes_tokensFrom (Text.byteSize s) t).eq_textOf
  have hfront : KeepsRule 0 (tokenize s) := keepsRule_tokensFrom 0 s
  have hback : KeepsRule (0 + Text.byteSize (textOf (tokenize s)))
      (tokensFrom (Text.byteSize s) 0 t) := by
    rw [← hs, Nat.zero_add]
    exact keepsRule_tokensFrom (Text.byteSize s) t
  have hkeeps := hfront.append hback (by rw [← htext]; exact ht) hlast
  have htokens := hkeeps.eq_tokensFrom
  rw [textOf_append, ← hs, ← htext] at htokens
  exact htokens.symm

/-! ## The tokens of a path -/

/-- The tokens of segments that are written from a byte offset on, each followed by a dot. -/
def dottedTokens : (offset : Nat) → List String → List Token
  | _, [] => []
  | offset, s :: segments =>
    ⟨.identifier, s.toList, offset⟩ :: ⟨.dot, ['.'], offset + Text.byteSize s.toList⟩
      :: dottedTokens (offset + Text.byteSize s.toList + Text.byteSize ['.']) segments

/-- The tokens of a stem that is written at a byte offset: one, or none if it is empty. -/
def stemTokens (offset : Nat) (stem : String) : List Token :=
  if stem = "" then [] else [⟨.identifier, stem.toList, offset⟩]

theorem textOf_dottedTokens (segments : List String) :
    ∀ offset, textOf (dottedTokens offset segments) = Path.dotted segments := by
  induction segments with
  | nil => exact fun _ => rfl
  | cons s segments ih =>
    intro offset
    rw [dottedTokens, textOf_cons, textOf_cons, ih, Path.dotted, Path.dotted, List.flatMap_cons,
      List.append_assoc]

/-- Segments end with a dot. -/
theorem kind_of_getLast?_dottedTokens (segments : List String) :
    ∀ offset, ∀ k ∈ (dottedTokens offset segments).getLast?, k.kind = .dot := by
  induction segments with
  | nil =>
    intro offset k hk
    cases hk
  | cons s segments ih =>
    intro offset k hk
    rw [dottedTokens, List.getLast?_cons_cons, List.getLast?_cons, Option.mem_def,
      Option.some.injEq] at hk
    subst hk
    cases hlast : (dottedTokens _ segments).getLast? with
    | none => rfl
    | some k => exact ih _ k hlast

theorem textOf_stemTokens (offset : Nat) (stem : String) :
    textOf (stemTokens offset stem) = stem.toList := by
  rw [stemTokens]
  split
  · next hempty =>
    rw [hempty]
    rfl
  · rw [textOf_cons, textOf_nil, List.append_nil]

/-- An identifier is read up to its end. -/
theorem IsIdentifier.isMatch {s t : Text} (hs : IsIdentifier s)
    (ht : ∀ d ∈ t.head?, ¬ isIdentifierRest d = true) : IsMatch (s ++ t) .identifier s := by
  obtain ⟨c, rest, rfl, hstart, hrest⟩ := hs
  have hread : (rest ++ t).takeWhile isIdentifierRest = rest := by
    rw [List.takeWhile_append_of_pos hrest, List.takeWhile_eq_nil_iff.mpr, List.append_nil]
    intro hlt
    exact ht _ (List.head?_eq_getElem? ▸ List.getElem?_eq_getElem hlt)
  have hmatch : IsMatch (c :: (rest ++ t)) .identifier
      (c :: (rest ++ t).takeWhile isIdentifierRest) :=
    .run (kindOf?_of_isIdentifierStart hstart) rfl hstart (ne_quote_of_isIdentifierStart hstart)
  rw [hread] at hmatch
  exact hmatch

theorem keepsRule_stemTokens (offset : Nat) {stem : String}
    (hstem : stem ≠ "" → IsIdentifier stem.toList) : KeepsRule offset (stemTokens offset stem) := by
  rw [stemTokens]
  split
  · exact keepsRule_tokensFrom offset []
  · next hne =>
    obtain ⟨c, rest, htext, -⟩ := hstem hne
    refine keepsRule_cons_iff.mpr ⟨⟨?_, rfl, (hstem hne).isMatch (by simp)⟩,
      keepsRule_tokensFrom _ []⟩
    rw [htext]
    exact List.cons_ne_nil _ _

/-- Segments with their dots keep to the rule, whatever comes behind them. -/
theorem keepsRule_dottedTokens {segments : List String}
    (hsegments : ∀ s ∈ segments, IsIdentifier s.toList) {ls : List Token} {offset : Nat}
    (hls : KeepsRule (offset + Text.byteSize (Path.dotted segments)) ls) :
    KeepsRule offset (dottedTokens offset segments ++ ls) := by
  induction segments generalizing offset with
  | nil => exact hls
  | cons s segments ih =>
    obtain ⟨hs, hrest⟩ := List.forall_mem_cons.mp hsegments
    have hne : s.toList ≠ [] := by
      obtain ⟨c, rest, htext, -⟩ := hs
      rw [htext]
      exact List.cons_ne_nil _ _
    have hdotted : Path.dotted (s :: segments) = s.toList ++ ['.'] ++ Path.dotted segments := rfl
    rw [hdotted, Text.byteSize_append, Text.byteSize_append, ← Nat.add_assoc,
      ← Nat.add_assoc] at hls
    have hdot : ∀ t : Text, IsMatch (['.'] ++ t) .dot ['.'] := fun t =>
      isMatch_lexemeAt (c := '.') rfl
    rw [dottedTokens, List.cons_append, List.cons_append, keepsRule_cons_iff, keepsRule_cons_iff]
    refine ⟨⟨hne, rfl, hs.isMatch ?_⟩, ⟨List.cons_ne_nil _ _, rfl, hdot _⟩, ih hrest hls⟩
    simpa using show isIdentifierRest '.' = false by decide

/-- The tokens of a path are its segments with their dots and its stem. -/
theorem tokensFrom_dotted {segments : List String} {stem : String}
    (hsegments : ∀ s ∈ segments, IsIdentifier s.toList)
    (hstem : stem ≠ "" → IsIdentifier stem.toList) (offset : Nat) :
    tokensFrom offset 0 (Path.dotted segments ++ stem.toList) = dottedTokens offset segments
      ++ stemTokens (offset + Text.byteSize (Path.dotted segments)) stem := by
  have hkeeps := keepsRule_dottedTokens hsegments
    (keepsRule_stemTokens (offset + Text.byteSize (Path.dotted segments)) hstem)
  have htokens := hkeeps.eq_tokensFrom
  rw [textOf_append, textOf_dottedTokens, textOf_stemTokens] at htokens
  exact htokens.symm

/-- A path begins with an identifier, unless nothing is written. -/
theorem startsIdentifier_dotted {segments : List String} {stem : String}
    (hsegments : ∀ s ∈ segments, IsIdentifier s.toList)
    (hstem : stem ≠ "" → IsIdentifier stem.toList) :
    StartsIdentifier (Path.dotted segments ++ stem.toList) := by
  have hhead : ∀ {s : Text} (t : Text), IsIdentifier s → StartsIdentifier (s ++ t) := by
    rintro _ t ⟨c, rest, rfl, hstart, -⟩ d hd
    cases hd
    exact hstart
  cases segments with
  | cons s segments =>
    have hdotted : Path.dotted (s :: segments) = s.toList ++ (['.'] ++ Path.dotted segments) := by
      rw [← List.append_assoc]
      rfl
    rw [hdotted, List.append_assoc]
    exact hhead _ (hsegments s (List.mem_cons_self ..))
  | nil =>
    by_cases hempty : stem = ""
    · subst hempty
      intro d hd
      cases hd
    · have hstart := hhead [] (hstem hempty)
      rw [List.append_nil] at hstart
      exact hstart

namespace Path

/-! ## Reading a path back -/

/-- The walk back passes the tokens of segments and goes on in front of them. -/
theorem segmentsBefore?_dottedTokens (segments : List String) :
    ∀ (offset : Nat) (left : List Token),
      segmentsBefore? ((dottedTokens offset segments).reverse ++ left)
        = (segmentsBefore? left).map fun outer => outer ++ segments := by
  induction segments with
  | nil =>
    intro offset left
    simp [dottedTokens]
  | cons s segments ih =>
    intro offset left
    -- the last segment is passed first, so the first one with its dot counts to what is left
    rw [dottedTokens, List.reverse_cons, List.reverse_cons, List.append_assoc, List.append_assoc,
      ih, List.singleton_append, List.singleton_append, segmentsBefore?, if_pos rfl, if_pos rfl,
      Option.map_map]
    simp [Function.comp_def]

theorem segmentsBefore?_of_not_dot {left : List Token} (h : ∀ k ∈ left.head?, k.kind ≠ .dot) :
    segmentsBefore? left = some [] := by
  match left with
  | [] => rfl
  | [last] => rw [segmentsBefore?, if_neg (h last rfl)]
  | last :: word :: rest => rw [segmentsBefore?, if_neg (h last rfl)]

/-- **A path that is written at the end of a text is read back**, whatever stands in front of it, as
long as an operand may begin there. -/
theorem ofBody?_append_dotted (before : Text) (segments : List String) (stem : String)
    (hsegments : ∀ s ∈ segments, IsIdentifier s.toList)
    (hstem : stem ≠ "" → IsIdentifier stem.toList)
    (hbefore : ∀ k ∈ (tokenize before).getLast?, k.kind.startsOperand = true) :
    let body := before ++ dotted segments ++ stem.toList
    ofBody? body = some ⟨segments, stem,
      ⟨body.byteSize - Text.byteSize stem.toList, body.byteSize, Nat.sub_le _ _⟩⟩ := by
  intro body
  have hspan : Span.ofSize (Text.byteSize before + Text.byteSize (dotted segments))
        (Text.byteSize stem.toList)
      = ⟨body.byteSize - Text.byteSize stem.toList, body.byteSize, Nat.sub_le _ _⟩ := by
    simp only [body, Span.ofSize, Text.byteSize_append, Nat.add_sub_cancel]
  have htokens : tokenize body = tokenize before ++ (dottedTokens before.byteSize segments
      ++ stemTokens (before.byteSize + Text.byteSize (dotted segments)) stem) := by
    rw [← tokensFrom_dotted hsegments hstem, ← tokenize_append
      (startsIdentifier_dotted hsegments hstem) hbefore, ← List.append_assoc]
  have hleft : segmentsBefore? (tokenize before).reverse = some [] := by
    refine segmentsBefore?_of_not_dot fun k hk hdot => ?_
    rw [List.head?_reverse] at hk
    have hstarts := hbefore k hk
    rw [hdot] at hstarts
    exact absurd hstarts (by decide)
  have hwalk : segmentsBefore? (tokenize before ++ dottedTokens before.byteSize segments).reverse
      = some segments := by
    rw [List.reverse_append, segmentsBefore?_dottedTokens, hleft]
    rfl
  by_cases hempty : stem = ""
  · subst hempty
    rw [stemTokens, if_pos rfl, List.append_nil] at htokens
    have hopen : ∀ k ∈ (tokenize body).getLast?, k.kind = .dot ∨ k.kind.startsOperand = true := by
      intro k hk
      rw [htokens, List.getLast?_append, Option.mem_def, Option.or_eq_some_iff] at hk
      rcases hk with hk | ⟨-, hk⟩
      · exact .inl (kind_of_getLast?_dottedTokens segments _ k hk)
      · exact .inr (hbefore k hk)
    rw [ofBody?_of_open hopen, htokens, hwalk]
    rfl
  · rw [stemTokens, if_neg hempty, ← List.append_assoc] at htokens
    rw [ofBody?_of_word htokens, hwalk, ← hspan, String.ofList_toList]
    rfl

/-- A path behind a literal with a doubled quote, an operator and a parenthesis. -/
theorem ofBody?_behindLiteral :
    (∀ s ∈ ["needs", "lint-all"], IsIdentifier s.toList) ∧
    ("ou" ≠ "" → IsIdentifier "ou".toList) ∧
    (∀ k ∈ (tokenize " a == 'it''s' && (".toList).getLast?, k.kind.startsOperand = true) ∧
    ofBody? " a == 'it''s' && (needs.lint-all.ou".toList
      = some ⟨["needs", "lint-all"], "ou", Span.ofSize 33 2⟩ := by
  have hsegments : ∀ s ∈ ["needs", "lint-all"], IsIdentifier s.toList := by
    simp only [List.forall_mem_cons]
    exact ⟨⟨'n', "eeds".toList, rfl, by decide, List.all_eq_true.mp rfl⟩,
      ⟨'l', "int-all".toList, rfl, by decide, List.all_eq_true.mp rfl⟩, by simp⟩
  have hstem : "ou" ≠ "" → IsIdentifier "ou".toList := fun _ =>
    ⟨'o', "u".toList, rfl, by decide, List.all_eq_true.mp rfl⟩
  have hbefore : ∀ k ∈ (tokenize " a == 'it''s' && (".toList).getLast?,
      k.kind.startsOperand = true := by decide
  exact ⟨hsegments, hstem, hbefore, ofBody?_append_dotted _ _ _ hsegments hstem hbefore⟩

end Path

end WorkflowLens.Expression
