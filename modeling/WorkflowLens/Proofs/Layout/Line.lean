import WorkflowLens.Proofs.Text.Occurrences
import WorkflowLens.Proofs.Text.Runs
import WorkflowLens.Proofs.Tree.Anchors

/-!
# Lines of block mappings

In a block mapping each key stands on a line of its own, after indentation and before a colon, and
the rest of the line is its value.  The locator does not read lines.  It looks for the name of the
key from the colon of the line before, so what it finds may stand in the value of that line, where
the name happens to be followed by a colon.

This is the only way in which it can go wrong.  No occurrence of a name goes over a line feed, and
what stands on a line after nothing but indentation and dashes is no comment, so whether a line
holds the next key can be seen on that line alone.

* `Line`, `Line.text`: a line of a block mapping.
* `Line.HoldsKey`: a name looks like a key in the value of a line.
* `Line.findKey?_first`: the search for the first key of a mapping finds the key.
* `Line.findKey?_next`, `Line.exists_findKey?_next`: the search for the key on the next line finds
  it, if the line before does not hold it, and else it finds a place on the line before.
-/

namespace WorkflowLens

open WorkflowLens.Tree

/-! ## Margins -/

/-- The last line of a text so far consists of indentation and dashes. -/
def Text.IsMargin (t : Text) : Prop :=
  ∀ c ∈ t.takeEndWhile (fun c => c != '\n'), Text.isBlank c = true ∨ c = '-'

namespace Text

theorem isMargin_of_forall {t : Text} (h : ∀ c ∈ t, isBlank c = true ∨ c = '-') : t.IsMargin :=
  fun c hc => h c (mem_of_mem_takeEndWhile hc)

/-- After a line feed a margin begins anew. -/
theorem isMargin_append_newline {t : Text} (s : Text) (ht : ∀ c ∈ t, isBlank c = true) :
    IsMargin (s ++ '\n' :: t) := by
  intro c hc
  rw [takeEndWhile_append_of_exists ⟨'\n', List.mem_cons_self .., rfl⟩] at hc
  rcases List.mem_cons.mp (mem_of_mem_takeEndWhile hc) with rfl | hmem
  · exact .inl rfl
  · exact .inl (ht c hmem)

theorem IsMargin.append {s t : Text} (hs : s.IsMargin)
    (ht : ∀ c ∈ t, isBlank c = true ∨ c = '-') : IsMargin (s ++ t) := by
  intro c hc
  by_cases hline : ∃ d ∈ t, (d != '\n') = false
  · rw [takeEndWhile_append_of_exists hline] at hc
    exact ht c (mem_of_mem_takeEndWhile hc)
  · rw [takeEndWhile_append_of_forall (by simpa only [not_exists, not_and, Bool.not_eq_false]
      using hline)] at hc
    rcases List.mem_append.mp hc with hmem | hmem
    · exact hs c hmem
    · exact ht c hmem

end Text

namespace Tree

/-- Neither quotes nor number signs stand in a margin. -/
theorem not_isQuote_of_margin {c : Char} (h : Text.isBlank c = true ∨ c = '-') :
    isQuote c = false ∧ (c == '#') = false := by
  constructor
  · rw [isQuote, Bool.or_eq_false_iff, beq_eq_false_iff_ne, beq_eq_false_iff_ne]
    constructor
    · rintro rfl
      exact absurd h (by decide)
    · rintro rfl
      exact absurd h (by decide)
  · rw [beq_eq_false_iff_ne]
    rintro rfl
    exact absurd h (by decide)

/-- A margin opens no quote and begins no comment. -/
theorem hasComment_append {m : Text} (hm : ∀ c ∈ m, Text.isBlank c = true ∨ c = '-')
    (before : Option Char) (t : Text) :
    hasComment none before (m ++ t) = hasComment none (m.getLast?.or before) t := by
  induction m generalizing before with
  | nil => rfl
  | cons c m ih =>
    obtain ⟨hquote, hsign⟩ := not_isQuote_of_margin (hm c (List.mem_cons_self ..))
    rw [List.cons_append, hasComment, hquote, hsign, if_neg Bool.false_ne_true, Bool.false_and,
      Bool.false_or, ih fun d hd => hm d (List.mem_cons_of_mem c hd), List.getLast?_cons]
    cases m.getLast? <;> rfl

theorem endsInComment_of_isMargin {t : Text} (h : t.IsMargin) : endsInComment t = false := by
  have hall := hasComment_append h none []
  rw [List.append_nil] at hall
  rw [endsInComment, hall]
  rfl

/-- Behind a blank a comment begins like at the beginning of a line. -/
theorem hasComment_eq_of_blank {before : Option Char} {t : Text}
    (h : before.all Text.isBlank = true ∨ ∃ c ∈ t.head?, Text.isBlank c = true) :
    hasComment none before t = hasComment none none t := by
  cases t with
  | nil => rfl
  | cons c t =>
    rw [hasComment, hasComment]
    rcases h with hbefore | ⟨d, hd, hblank⟩
    · rw [hbefore]
      rfl
    · rw [List.head?_cons, Option.mem_some] at hd
      subst hd
      rw [(not_isQuote_of_margin (.inl hblank)).2]
      rfl

/-- Whether a text ends in a comment does not depend on a margin in front of it. -/
theorem endsInComment_append {past t : Text} (hpast : past.IsMargin)
    (hborder : past.getLast?.all Text.isBlank = true ∨ ∃ c ∈ t.head?, Text.isBlank c = true) :
    endsInComment (past ++ t) = endsInComment t := by
  rw [endsInComment, endsInComment]
  by_cases hline : ∃ d ∈ t, (d != '\n') = false
  · rw [Text.takeEndWhile_append_of_exists hline]
  · have hall : ∀ d ∈ t, (d != '\n') = true := by
      simpa only [not_exists, not_and, Bool.not_eq_false] using hline
    have hself : Text.takeEndWhile (fun c => c != '\n') t = t := by
      have happend := Text.takeEndWhile_append_of_forall hall []
      simpa [Text.takeEndWhile] using happend
    rw [Text.takeEndWhile_append_of_forall hall, hself, hasComment_append hpast]
    refine hasComment_eq_of_blank (hborder.imp_left fun hlast => ?_)
    -- the last character on the line is the last character of the text, if there is one
    rw [Text.getLast?_takeEndWhile, Option.or_none]
    cases hpastLast : past.getLast? with
    | none => rfl
    | some d =>
      rw [hpastLast] at hlast
      rw [Option.filter_some]
      split
      · exact hlast
      · rfl

end Tree

/-! ## Lines -/

/-- Whether a line of a block mapping can have these parts: blanks, a key that begins with no blank,
blanks again, and what follows the colon, which like the key stays on the line. -/
def areLineParts (indent key space rest : Text) : Bool :=
  indent.all Text.isBlank && (key.head?.any fun c => !Text.isBlank c) && !key.elem '\n'
    && (space.all fun c => c == ' ' || c == '\t') && !rest.elem '\n'

/-- A line of a block mapping, such as `key: value`. -/
structure Line where
  /-- The blanks before the key.  Empty lines before the line belong to it. -/
  indent : Text
  key : Text
  /-- The blanks between the key and its colon. -/
  space : Text
  /-- What follows the colon on the line. -/
  rest : Text
  areParts : areLineParts indent key space rest = true := by decide

namespace Line

/-- The line up to its colon. -/
def lead (l : Line) : Text := l.indent ++ (l.key ++ (l.space ++ [':']))

/-- The line as it is written. -/
def text (l : Line) : Text := l.lead ++ l.rest

theorem parts_spec (l : Line) : (∀ c ∈ l.indent, Text.isBlank c = true) ∧
    (∃ c k, l.key = c :: k ∧ Text.isBlank c = false) ∧ '\n' ∉ l.key ∧
    (∀ c ∈ l.space, c = ' ' ∨ c = '\t') ∧ '\n' ∉ l.rest := by
  have hparts := l.areParts
  simp only [areLineParts, Bool.and_eq_true, List.all_eq_true, Bool.or_eq_true, beq_iff_eq,
    Bool.not_eq_true', List.elem_eq_contains, List.contains_eq_mem, decide_eq_false_iff_not]
    at hparts
  obtain ⟨⟨⟨⟨hindent, hkey⟩, hkeySingle⟩, hspace⟩, hrestSingle⟩ := hparts
  refine ⟨hindent, ?_, hkeySingle, hspace, hrestSingle⟩
  cases hcons : l.key with
  | nil => simp [hcons] at hkey
  | cons c k => exact ⟨c, k, rfl, by simpa [hcons] using hkey⟩

theorem indent_blank (l : Line) : ∀ c ∈ l.indent, Text.isBlank c = true := l.parts_spec.1

theorem exists_key_eq_cons (l : Line) : ∃ c k, l.key = c :: k ∧ Text.isBlank c = false :=
  l.parts_spec.2.1

theorem key_single (l : Line) : '\n' ∉ l.key := l.parts_spec.2.2.1

theorem space_blank (l : Line) : ∀ c ∈ l.space, c = ' ' ∨ c = '\t' := l.parts_spec.2.2.2.1

theorem lead_ne_nil (l : Line) : l.lead ≠ [] := by
  simp [lead]

theorem key_ne_nil (l : Line) : l.key ≠ [] := by
  obtain ⟨c, k, hk, -⟩ := l.exists_key_eq_cons
  rw [hk]
  exact List.cons_ne_nil c k

/-- The value on the line holds a name as if it were a key: the name is met there, it has a colon
after it, and it stands behind a blank or an indicator, in quotes on both sides or on neither,
outside comments. -/
def HoldsKey (l : Line) (name : Text) : Prop :=
  ∃ before after quote blanks rest, l.rest = before ++ (name ++ after) ∧
    Text.byteSize before ∈ Text.occurrencesFrom name 0 0 l.rest ∧
    IsKey (l.lead ++ before) after quote blanks rest

/-- No line holds the key of the next line. -/
def KeepKeys (lines : List Line) : Prop :=
  ∀ i l m, lines[i]? = some l → lines[i + 1]? = some m → ¬ l.HoldsKey m.key

/-- A value in which the name does not occur does not hold it. -/
theorem not_holdsKey_of_occurrencesFrom {l : Line} {name : Text}
    (h : Text.occurrencesFrom name 0 0 l.rest = []) : ¬ l.HoldsKey name := by
  rintro ⟨_, _, _, _, _, -, hmem, -⟩
  rw [h] at hmem
  exact List.not_mem_nil hmem

/-- A line may stand after a text: the text ends with a margin, and between the margin and the
first character of the line is a blank. -/
structure Follows (l : Line) (past : Text) : Prop where
  isMargin : past.IsMargin
  blank : past.getLast?.all Text.isBlank = true ∨ l.indent ≠ []

theorem follows_newline (l : Line) (past : Text) : l.Follows (past ++ ['\n']) where
  isMargin := Text.isMargin_append_newline past (by simp)
  blank := .inl (by rw [List.getLast?_concat]; rfl)

theorem follows_nil (l : Line) : l.Follows [] where
  isMargin := Text.isMargin_of_forall (by simp)
  blank := .inl rfl

variable {l m : Line} {past after : Text}

/-- Whether a place on a line is in a comment can be seen on the line. -/
theorem Follows.endsInComment_append (h : l.Follows past) (before : Text) :
    endsInComment (past ++ (l.lead ++ before)) = endsInComment (l.lead ++ before) := by
  refine Tree.endsInComment_append h.isMargin (h.blank.imp_right fun hindent => ?_)
  obtain ⟨c, indent, hc⟩ := List.exists_cons_of_ne_nil hindent
  refine ⟨c, by rw [lead, hc]; rfl, l.indent_blank c (by rw [hc]; exact List.mem_cons_self ..)⟩

/-- Whether a place on a line is a key can be seen on the line. -/
theorem Follows.isKey_append_iff (h : l.Follows past) {before next : Text} {quote : Option Char}
    {blanks rest : Text} :
    IsKey (past ++ (l.lead ++ before)) next quote blanks rest
      ↔ IsKey (l.lead ++ before) next quote blanks rest := by
  have hlast : (past ++ (l.lead ++ before)).getLast? = (l.lead ++ before).getLast? :=
    List.getLast?_append_of_ne_nil past (List.append_ne_nil_of_left_ne_nil l.lead_ne_nil before)
  have hcomment := h.endsInComment_append before
  constructor
  · exact fun hkey => ⟨hlast ▸ hkey.mayPrecede, hlast ▸ hkey.quote_eq, hcomment ▸ hkey.noComment,
      hkey.after_eq, hkey.blank⟩
  · exact fun hkey => ⟨hlast.symm ▸ hkey.mayPrecede, hlast.symm ▸ hkey.quote_eq,
      hcomment.symm ▸ hkey.noComment, hkey.after_eq, hkey.blank⟩

end Line

/-! ## Keys and line feeds -/

namespace Tree

variable {before next more : Text} {quote : Option Char} {blanks rest : Text}

theorem IsKey.append (h : IsKey before next quote blanks rest) (more : Text) :
    IsKey before (next ++ more) quote blanks (rest ++ more) where
  mayPrecede := h.mayPrecede
  quote_eq := h.quote_eq
  noComment := h.noComment
  after_eq := by rw [h.after_eq, List.append_assoc, List.cons_append]
  blank := h.blank

/-- What makes a name a key stands on its line. -/
theorem IsKey.of_append_newline (h : IsKey before (next ++ '\n' :: more) quote blanks rest) :
    ∃ rest', IsKey before next quote blanks rest' := by
  have hquote : '\n' ∉ quote.toList := by
    intro hmem
    have hfilter := h.quote_eq.trans (Option.mem_toList.mp hmem)
    exact absurd (Option.filter_eq_some_iff.mp hfilter).2 (by decide)
  have hblanks : '\n' ∉ blanks := by
    intro hmem
    rcases h.blank _ hmem with heq | heq
    · exact absurd heq (by decide)
    · exact absurd heq (by decide)
  have hprefix : quote.toList ++ blanks ++ [':'] <+: next := by
    refine Text.isPrefix_of_isPrefix_append_cons (c := '\n') (t := more) (by simp [hquote, hblanks])
      ⟨rest, ?_⟩
    rw [h.after_eq, List.append_assoc, List.singleton_append]
  obtain ⟨rest', hrest⟩ := hprefix
  refine ⟨rest', h.mayPrecede, h.quote_eq, h.noComment, ?_, h.blank⟩
  rw [← hrest, List.append_assoc, List.singleton_append]

/-! ## The first key among several places -/

variable {text name : Text}

/-- Places that are no keys are passed over. -/
theorem firstKey?_append_cons {ps qs : List Nat} {p : Nat} {a : Anchor}
    (hps : ∀ q ∈ ps, keyAt? text name q = .ok none) (hp : keyAt? text name p = .ok (some a)) :
    firstKey? text name (ps ++ p :: qs) = .ok (some a) := by
  induction ps with
  | nil =>
    rw [List.nil_append, firstKey?, hp]
    rfl
  | cons q ps ih =>
    rw [List.cons_append, firstKey?, hps q (List.mem_cons_self ..)]
    exact ih fun q' hq' => hps q' (List.mem_cons_of_mem q hq')

/-- The first of some places is a key if one of them is. -/
theorem exists_firstKey?_append {ps qs : List Nat} {a : Anchor}
    (hps : ∀ q ∈ ps, ∃ found, keyAt? text name q = .ok found)
    (hkey : ∃ q ∈ ps, keyAt? text name q = .ok (some a)) :
    ∃ q ∈ ps, ∃ b, keyAt? text name q = .ok (some b) ∧
      firstKey? text name (ps ++ qs) = .ok (some b) := by
  induction ps with
  | nil => simp at hkey
  | cons p ps ih =>
    obtain ⟨found, hfound⟩ := hps p (List.mem_cons_self ..)
    cases found with
    | some b =>
      refine ⟨p, List.mem_cons_self .., b, hfound, ?_⟩
      rw [List.cons_append, firstKey?, hfound]
      rfl
    | none =>
      obtain ⟨q, hq, hqkey⟩ := hkey
      rcases List.mem_cons.mp hq with rfl | hmem
      · rw [hfound] at hqkey
        cases hqkey
      · obtain ⟨r, hr, b, hb, hfirst⟩ :=
          ih (fun q' hq' => hps q' (List.mem_cons_of_mem p hq')) ⟨q, hmem, hqkey⟩
        refine ⟨r, List.mem_cons_of_mem p hr, b, hb, ?_⟩
        rw [List.cons_append, firstKey?, hfound]
        exact hfirst

end Tree

namespace Line

variable {l m : Line} {past after : Text}

/-! ## Finding the key of a line -/

/-- The anchor of a line's key if the line comes after `past`. -/
def anchor (l : Line) (past : Text) : Anchor :=
  ⟨Text.byteSize (past ++ l.indent), Text.byteSize (past ++ l.lead)⟩

/-- The key at the beginning of a line is a key. -/
theorem keyAt?_own (h : l.Follows past) :
    keyAt? (past ++ (l.text ++ after)) l.key (Text.byteSize (past ++ l.indent))
      = .ok (some (l.anchor past)) := by
  have hlast : (past ++ l.indent).getLast?.all Text.isBlank = true := by
    cases hindent : l.indent.getLast? with
    | some c =>
      rw [List.getLast?_append, hindent]
      exact l.indent_blank c (List.mem_of_getLast? hindent)
    | none =>
      have hnil : l.indent = [] := List.getLast?_eq_none_iff.mp hindent
      rw [hnil, List.append_nil]
      exact h.blank.resolve_right (not_not_intro hnil)
  have hkey : IsKey (past ++ l.indent) (l.space ++ ':' :: (l.rest ++ after)) none l.space
      (l.rest ++ after) := by
    refine ⟨?_, ?_, ?_, rfl, l.space_blank⟩
    · cases hc : (past ++ l.indent).getLast? with
      | none => rfl
      | some c =>
        rw [hc] at hlast
        have hblank : Text.isBlank c = true := hlast
        simp [mayPrecedeKey, hblank]
    · cases hc : (past ++ l.indent).getLast? with
      | none => rfl
      | some c =>
        rw [hc] at hlast
        rw [Option.filter_some, (not_isQuote_of_margin (.inl hlast)).1]
        rfl
    · exact endsInComment_of_isMargin
        (h.isMargin.append fun c hc => .inl (l.indent_blank c hc))
  have hfound := @keyAt?_of_isKey _ l.key _ _ _ _ hkey
  have htext : past ++ (l.text ++ after)
      = past ++ l.indent ++ (l.key ++ (l.space ++ ':' :: (l.rest ++ after))) := by
    simp only [text, lead, List.append_assoc, List.cons_append, List.nil_append]
  rw [htext, hfound, keyAnchor, anchor, lead]
  simp only [Option.toList_none, List.length_nil, Nat.sub_zero, List.append_nil,
    List.append_assoc]

/-- After indentation the first occurrence of the key is the key. -/
theorem head?_occurrencesFrom_indent (l : Line) (offset : Nat) (after : Text) :
    ∃ places, Text.occurrencesFrom l.key offset 0 (l.text ++ after)
      = (offset + l.indent.byteSize) :: places := by
  obtain ⟨c, k, hkey, hblank⟩ := l.exists_key_eq_cons
  have hpass : ∀ d ∈ l.indent, d ≠ c := by
    rintro d hd rfl
    rw [l.indent_blank d hd] at hblank
    cases hblank
  have hafter := @Text.occurrencesFrom_append_of_forall_ne c k l.indent hpass
    (c :: k ++ (l.space ++ ':' :: (l.rest ++ after))) offset
  have hhead := @Text.head?_occurrencesFrom (c :: k) (l.space ++ ':' :: (l.rest ++ after))
    (List.cons_ne_nil c k)
    (offset + l.indent.byteSize)
  obtain ⟨places, hplaces⟩ := List.head?_eq_some_iff.mp hhead
  refine ⟨places, ?_⟩
  rw [← hplaces, ← hafter, hkey, text, lead, hkey]
  simp only [List.append_assoc, List.cons_append, List.nil_append]

/-- The search for a key right before its line finds the key. -/
theorem findKey?_first (h : l.Follows past) :
    findKey? (past ++ (l.text ++ after)) past.byteSize l.key = .ok (some (l.anchor past)) := by
  obtain ⟨places, hplaces⟩ := l.head?_occurrencesFrom_indent past.byteSize after
  rw [findKey?_append l.key_ne_nil, hplaces, ← Text.byteSize_append]
  exact @firstKey?_append_cons _ _ [] places _ _ (by simp) (keyAt?_own h)

section next

variable (m after)

/-- The places that a search for the key of the next line meets: those in the value of the line,
then the key itself. -/
theorem exists_occurrencesFrom_next (l : Line) (past : Text) :
    ∃ places, Text.occurrencesFrom m.key (Text.byteSize (past ++ l.lead)) 0
        (l.rest ++ '\n' :: (m.text ++ after))
      = (Text.occurrencesFrom m.key 0 0 l.rest).map (Text.byteSize (past ++ l.lead) + ·)
        ++ (m.anchor (past ++ l.text ++ ['\n'])).start :: places := by
  have hcut := Text.occurrencesFrom_append_cons m.key_ne_nil m.key_single l.rest (m.text ++ after)
    (Text.byteSize (past ++ l.lead)) 0 (Nat.zero_le _)
  have hvalue := Text.occurrencesFrom_eq_map m.key l.rest (Text.byteSize (past ++ l.lead)) 0 0
  obtain ⟨places, hplaces⟩ := m.head?_occurrencesFrom_indent
    (Text.byteSize (past ++ l.lead) + l.rest.byteSize + '\n'.utf8Size) after
  refine ⟨places, ?_⟩
  rw [hcut, ← hvalue, hplaces, anchor, text]
  simp only [Text.byteSize_append, Text.byteSize_cons, Text.byteSize_nil, Nat.add_zero,
    Nat.add_assoc]

theorem findKey?_eq_firstKey? (l : Line) (past : Text) :
    findKey? (past ++ (l.text ++ '\n' :: (m.text ++ after))) (Text.byteSize (past ++ l.lead)) m.key
      = firstKey? (past ++ (l.text ++ '\n' :: (m.text ++ after))) m.key
          (Text.occurrencesFrom m.key (Text.byteSize (past ++ l.lead)) 0
            (l.rest ++ '\n' :: (m.text ++ after))) := by
  have htext : past ++ (l.text ++ '\n' :: (m.text ++ after))
      = past ++ l.lead ++ (l.rest ++ '\n' :: (m.text ++ after)) := by
    simp only [text, List.append_assoc]
  rw [htext, findKey?_append m.key_ne_nil]

variable (h : l.Follows past)
include h

/-- A place in the value of a line is a key exactly if the line says so. -/
theorem keyAt?_value {before next : Text} (hrest : l.rest = before ++ (m.key ++ next)) :
    (∃ found, keyAt? (past ++ (l.text ++ '\n' :: (m.text ++ after))) m.key
      (Text.byteSize (past ++ l.lead) + before.byteSize) = .ok found) ∧
    (∀ a, keyAt? (past ++ (l.text ++ '\n' :: (m.text ++ after))) m.key
      (Text.byteSize (past ++ l.lead) + before.byteSize) = .ok (some a) →
        (∃ quote blanks rest, IsKey (l.lead ++ before) next quote blanks rest) ∧
        a.start ≤ Text.byteSize (past ++ l.lead) + before.byteSize) ∧
    ∀ quote blanks rest, IsKey (l.lead ++ before) next quote blanks rest →
      ∃ a, keyAt? (past ++ (l.text ++ '\n' :: (m.text ++ after))) m.key
        (Text.byteSize (past ++ l.lead) + before.byteSize) = .ok (some a) := by
  have htext : past ++ (l.text ++ '\n' :: (m.text ++ after))
      = past ++ (l.lead ++ before) ++ (m.key ++ (next ++ '\n' :: (m.text ++ after))) := by
    simp only [text, hrest, List.append_assoc]
  have hplace : Text.byteSize (past ++ l.lead) + before.byteSize
      = Text.byteSize (past ++ (l.lead ++ before)) := by
    simp only [Text.byteSize_append, Nat.add_assoc]
  rw [htext, hplace]
  refine ⟨⟨_, keyAt?_append _ m.key _⟩, fun a ha => ?_, fun quote blanks rest hkey => ?_⟩
  · obtain ⟨quote, blanks, rest, hkey, rfl⟩ := isKey_of_keyAt? ha
    obtain ⟨rest', hkey'⟩ := hkey.of_append_newline
    exact ⟨⟨quote, blanks, rest', h.isKey_append_iff.mp hkey'⟩, Nat.sub_le _ _⟩
  · exact ⟨_, keyAt?_of_isKey (h.isKey_append_iff.mpr (hkey.append ('\n' :: (m.text ++ after))))⟩

/-- **If a line does not hold the key of the next line, the search from its colon finds that key
where it stands.** -/
theorem findKey?_next (hholds : ¬ l.HoldsKey m.key) :
    findKey? (past ++ (l.text ++ '\n' :: (m.text ++ after))) (Text.byteSize (past ++ l.lead)) m.key
      = .ok (some (m.anchor (past ++ l.text ++ ['\n']))) := by
  obtain ⟨places, hplaces⟩ := exists_occurrencesFrom_next m after l past
  rw [findKey?_eq_firstKey? m after l past, hplaces]
  refine firstKey?_append_cons (fun q hq => ?_) ?_
  · obtain ⟨p, hp, rfl⟩ := List.mem_map.mp hq
    obtain ⟨before, next, hrest, hsize⟩ := Text.occurrencesFrom_sound hp
    rw [List.append_assoc] at hrest
    rw [Nat.zero_add] at hsize
    obtain ⟨⟨found, hfound⟩, hkey, -⟩ := keyAt?_value m after h hrest
    rw [hsize, hfound]
    cases found with
    | none => rfl
    | some a =>
      obtain ⟨⟨quote, blanks, rest, hisKey⟩, -⟩ := hkey a hfound
      exact absurd ⟨before, next, quote, blanks, rest, hrest, hsize ▸ hp, hisKey⟩ hholds
  · have hown := @keyAt?_own m _ after (m.follows_newline (past ++ l.text))
    have htext : past ++ (l.text ++ '\n' :: (m.text ++ after))
        = past ++ l.text ++ ['\n'] ++ (m.text ++ after) := by
      simp only [List.append_assoc, List.singleton_append]
    rw [htext]
    exact hown

/-- If a line holds the key of the next line, the search from its colon finds a place on the
line. -/
theorem exists_findKey?_next (hholds : l.HoldsKey m.key) :
    ∃ a, findKey? (past ++ (l.text ++ '\n' :: (m.text ++ after)))
        (Text.byteSize (past ++ l.lead)) m.key = .ok (some a) ∧
      a.start ≤ Text.byteSize (past ++ l.text) := by
  obtain ⟨before, next, quote, blanks, rest, hrest, hmem, hkey⟩ := hholds
  obtain ⟨places, hplaces⟩ := exists_occurrencesFrom_next m after l past
  have hvalue := keyAt?_value m after h hrest
  obtain ⟨a, ha⟩ := hvalue.2.2 quote blanks rest hkey
  obtain ⟨q, hq, b, hb, hfirst⟩ := @exists_firstKey?_append
    (past ++ (l.text ++ '\n' :: (m.text ++ after))) m.key
    ((Text.occurrencesFrom m.key 0 0 l.rest).map (Text.byteSize (past ++ l.lead) + ·))
    ((m.anchor (past ++ l.text ++ ['\n'])).start :: places) a
    (fun q hq => by
      obtain ⟨p, hp, rfl⟩ := List.mem_map.mp hq
      obtain ⟨before', next', hrest', hsize⟩ := Text.occurrencesFrom_sound hp
      rw [List.append_assoc] at hrest'
      rw [hsize, Nat.zero_add]
      exact (keyAt?_value m after h hrest').1)
    ⟨_, List.mem_map.mpr ⟨_, hmem, rfl⟩, ha⟩
  rw [findKey?_eq_firstKey? m after l past, hplaces]
  refine ⟨b, hfirst, ?_⟩
  obtain ⟨p, hp, rfl⟩ := List.mem_map.mp hq
  obtain ⟨before', next', hrest', hsize⟩ := Text.occurrencesFrom_sound hp
  rw [List.append_assoc] at hrest'
  rw [Nat.zero_add] at hsize
  subst hsize
  have hstart := ((keyAt?_value m after h hrest').2.1 b hb).2
  rw [text, hrest']
  simp only [Text.byteSize_append] at hstart ⊢
  omega

end next

end Line

end WorkflowLens
