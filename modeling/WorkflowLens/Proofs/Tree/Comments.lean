import Mathlib.Data.List.Infix
import WorkflowLens.Proofs.Text.Runs
import WorkflowLens.Proofs.Tree.FirstPlaces
import WorkflowLens.Proofs.Tree.Walk
import WorkflowLens.Proofs.Yaml.Comments

/-!
# Nodes that are found in comments

Comments hold anything, also keys, dashes and the texts of items, and none of these belong to the
document.  Only the search for a key tries to pass them over, and it tells a comment by counting
quote characters from the beginning of the line.  An apostrophe in a plain scalar, as in `it's`, is
counted as well, and then the comment behind it is taken for a part of a quoted scalar.  Scalars
and item markers are looked for without regard to comments.

* `openQuote`, `hasComment_iff`: comments as they are told by counting quotes.
* `openQuote_ne_none_of_endsInComment`: why a comment is missed.
* `IsCaptured`: what is looked for stands first in a comment, and if it is a key, behind a quote
  that is left open.
* `inComment_start_span_iff`: a node that is found starts in a comment exactly if it is captured.
-/

namespace WorkflowLens

open Yaml (IsComment InComment isSpace isBreak)

/-! ## Open quotes -/

/-- The last line of a text. -/
def Text.lastLine (t : Text) : Text := t.takeEndWhile fun c => c != '\n'

namespace Tree

/-- The quote that is open at the end of a piece of a line if every quote character begins or ends
a quoted scalar. -/
def openQuote : (quote : Option Char) → Text → Option Char
  | quote, [] => quote
  | none, c :: t => openQuote (if isQuote c then some c else none) t
  | some q, c :: t => openQuote (if c == q then none else some q) t

/-- A number sign that begins a comment is the first character of a piece of a line or stands behind
it. -/
theorem exists_sign_cons_iff {quote before : Option Char} {c : Char} {t : Text} :
    (∃ line more, c :: t = line ++ '#' :: more ∧
        (line.getLast?.or before).all Text.isBlank = true ∧ openQuote quote line = none) ↔
      (c = '#' ∧ before.all Text.isBlank = true ∧ quote = none) ∨
      ∃ line more, t = line ++ '#' :: more ∧
        (line.getLast?.or (some c)).all Text.isBlank = true ∧
          openQuote quote (c :: line) = none := by
  constructor
  · rintro ⟨line, more, ht, hblank, hclosed⟩
    cases line with
    | nil =>
      rw [List.nil_append, List.cons.injEq] at ht
      exact .inl ⟨ht.1, hblank, hclosed⟩
    | cons d line =>
      rw [List.cons_append, List.cons.injEq] at ht
      obtain ⟨rfl, ht⟩ := ht
      rw [Text.getLast?_cons_or] at hblank
      exact .inr ⟨line, more, ht, hblank, hclosed⟩
  · rintro (⟨rfl, hblank, hclosed⟩ | ⟨line, more, rfl, hblank, hclosed⟩)
    · exact ⟨[], t, rfl, hblank, hclosed⟩
    · exact ⟨c :: line, more, rfl, by rw [Text.getLast?_cons_or]; exact hblank, hclosed⟩

/-- A comment begins at a number sign at the beginning of the line or behind a blank, if no quote is
open there. -/
theorem hasComment_iff {quote before : Option Char} {t : Text} :
    hasComment quote before t = true ↔
      ∃ line more, t = line ++ '#' :: more ∧
        (line.getLast?.or before).all Text.isBlank = true ∧ openQuote quote line = none := by
  induction t generalizing quote before with
  | nil =>
    refine iff_of_false (by simp [hasComment]) ?_
    rintro ⟨line, more, ht, -⟩
    exact List.append_ne_nil_of_right_ne_nil line (List.cons_ne_nil '#' more) ht.symm
  | cons c t ih =>
    rw [exists_sign_cons_iff]
    cases quote with
    | some q => simp only [hasComment, openQuote, ih, reduceCtorEq, and_false, false_or]
    | none =>
      simp only [hasComment, openQuote]
      split
      · next hquote =>
        have hsign : c ≠ '#' := by
          rintro rfl
          exact absurd hquote (by decide)
        simp only [ih, hsign, false_and, false_or]
      · simp only [Bool.or_eq_true, Bool.and_eq_true, beq_iff_eq, ih, and_true]

theorem isBlank_of_opens {c : Char} (h : (isSpace c || isBreak c) = true) :
    Text.isBlank c = true := by
  rw [Bool.or_eq_true, isSpace, Bool.or_eq_true, beq_iff_eq, beq_iff_eq] at h
  rcases h with (rfl | rfl) | h
  · rfl
  · rfl
  · simp only [isBreak, Bool.or_eq_true, beq_iff_eq] at h
    simp only [Text.isBlank, Bool.or_eq_true, Bool.and_eq_true, decide_eq_true_eq, beq_iff_eq]
    omega

/-- **A place behind the number sign of a comment counts as outside comments only if a quote is left
open on the line before the sign.** -/
theorem openQuote_ne_none_of_endsInComment {text before body front : Text}
    (h : IsComment text before body) (hline : '\n' ∉ front)
    (houtside : endsInComment (before ++ '#' :: front) = false) :
    openQuote none before.lastLine ≠ none := by
  intro hclosed
  have hfront : ∀ c ∈ '#' :: front, (c != '\n') = true := by
    intro c hc
    rw [bne_iff_ne]
    rintro rfl
    rcases List.mem_cons.mp hc with hsign | hmem
    · exact absurd hsign (by decide)
    · exact hline hmem
  have hblank : (before.lastLine.getLast?.or none).all Text.isBlank = true := by
    rw [Option.or_none, Text.lastLine, Text.getLast?_takeEndWhile]
    have hopens := h.opens
    cases hlast : before.getLast? with
    | none => rfl
    | some c =>
      rw [hlast] at hopens
      rw [Option.filter_some]
      split
      · exact isBlank_of_opens hopens
      · rfl
  rw [endsInComment, Text.takeEndWhile_append_of_forall hfront, ← Text.lastLine,
    hasComment_iff.mpr ⟨before.lastLine, front, rfl, hblank, hclosed⟩] at houtside
  cases houtside

end Tree

/-! ## Places in comments -/

/-- What stands before an offset in a comment goes on behind the number sign on the same line. -/
theorem Yaml.IsComment.exists_front {text before body front rest : Text}
    (h : IsComment text before body) (htext : text = front ++ rest)
    (hlt : before.byteSize < front.byteSize)
    (hle : front.byteSize < Text.byteSize (before ++ '#' :: body)) :
    ∃ more, front = before ++ '#' :: more ∧ '\n' ∉ more := by
  obtain ⟨after, hafter⟩ := h.isPrefix
  rw [htext, List.append_assoc] at hafter
  obtain ⟨between, rfl, hbetween⟩ := Text.exists_append_of_byteSize_le hafter (Nat.le_of_lt hlt)
  cases between with
  | nil =>
    rw [List.append_nil] at hlt
    exact absurd hlt (Nat.lt_irrefl _)
  | cons c more =>
    rw [List.cons_append, List.cons_append, List.cons.injEq] at hbetween
    obtain ⟨rfl, hmore⟩ := hbetween
    have hsize : Text.byteSize more ≤ body.byteSize := by
      simp only [Text.byteSize_append, Text.byteSize_cons] at hle
      omega
    obtain ⟨left, rfl, -⟩ := Text.exists_append_of_byteSize_le hmore.symm hsize
    refine ⟨more, rfl, fun hmem => ?_⟩
    have hbreak := h.oneLine _ (List.mem_append_left left hmem)
    exact absurd hbreak (by decide)

namespace Tree

/-- **A key is found in a comment only if a quote is left open on the line before it.** -/
theorem openQuote_ne_none_of_keyAt {text name before body : Text} {p : Nat} {a : Anchor}
    (hkey : KeyAt text name p a) (h : IsComment text before body)
    (hlt : before.byteSize < a.start)
    (hle : a.start < Text.byteSize (before ++ '#' :: body)) :
    openQuote none before.lastLine ≠ none := by
  obtain ⟨past, after, quote, blanks, rest, rfl, -, hisKey, rfl⟩ := hkey
  obtain ⟨front, rfl, hstart⟩ := hisKey.exists_append name
  rw [hstart] at hlt hle
  obtain ⟨more, rfl, hmore⟩ := h.exists_front (List.append_assoc ..) hlt hle
  refine @openQuote_ne_none_of_endsInComment _ _ _ (more ++ quote.toList) h ?_ ?_
  · rw [List.mem_append, not_or]
    refine ⟨hmore, fun hmem => ?_⟩
    have hquote := hisKey.quote_eq.trans (Option.mem_toList.mp hmem)
    exact absurd (Option.filter_eq_some_iff.mp hquote).2 (by decide)
  · rw [← hisKey.noComment, List.append_assoc, List.cons_append]

/-! ## Nodes in comments -/

/-- What is looked for from an offset on when a node is located stands first in a comment.  A key
does so only where a quote is left open on the line before the comment. -/
def IsCaptured (text : Text) (cursor : Nat) (n : Node) : Prop :=
  ∃ a before body, IsFirst (StandsAt text cursor n) a ∧ IsComment text before body ∧
    before.byteSize < a.start ∧ a.start < Text.byteSize (before ++ '#' :: body) ∧
    (n.name ≠ none → openQuote none before.lastLine ≠ none)

theorem inComment_found?_iff {text : Text} {cursor : Nat} (h : text.isBoundary cursor = true)
    {n : Node} {a : Anchor} (hfound : found? text cursor n = some a) :
    InComment text a.start ↔ IsCaptured text cursor n := by
  have hfirst := (found?_eq_some_iff h n).mp hfound
  constructor
  · rintro ⟨before, body, hcomment, hlt, hle⟩
    refine ⟨a, before, body, hfirst, hcomment, hlt, hle, fun hname => ?_⟩
    obtain ⟨name, hname⟩ := Option.ne_none_iff_exists'.mp hname
    obtain ⟨p, hp, -⟩ := hfirst
    rw [StandsAt, hname] at hp
    exact openQuote_ne_none_of_keyAt hp.2.2 hcomment hlt hle
  · rintro ⟨b, before, body, hb, hcomment, hlt, hle, -⟩
    rw [(found?_eq_some_iff h n).mpr hb, Option.some.injEq] at hfound
    rw [← hfound]
    exact ⟨before, body, hcomment, hlt, hle⟩

/-- **Which nodes are found in comments.**  A node of a document that is found starts in a comment
exactly if what is looked for stands first in a comment, and, if it is a key, a quote is left open
on the line before the comment. -/
theorem inComment_start_span_iff {t : Tree} {text : Text} (h : decode text = .ok t) {n : Nat}
    (hn : n < t.size) {a : Anchor} (hfound : (t.search text n).found = some a) :
    InComment text (t.span n).start ↔ IsCaptured text (t.search text n).cursor (t.node n) := by
  have hstart : (t.span n).start = a.start := by
    rw [(isLocated_of_decode h).start_span hn, Search.anchor, hfound, Option.getD_some]
  rw [hstart]
  cases n with
  | zero => cases hfound
  | succ n => exact inComment_found?_iff (isBoundary_search t text (n + 1)).1 hfound

/-! ### A number sign in a quoted scalar -/

/-- A text with a number sign in a quoted scalar, and a comment behind it. -/
def quotedText : Text := "a: 'x # y' # b: 0\nb: z\n".toList

/-- The tree of this text. -/
def quotedTree : Tree :=
  ⟨#[⟨none, none, .mapping, none, [1, 2], 0, 3, Span.upTo 0 23⟩,
    ⟨some "a", some "x # y", .scalar, some 0, [], 0, 2, Span.upTo 0 18⟩,
    ⟨some "b", some "z", .scalar, some 0, [], 1, 3, Span.upTo 18 23⟩]⟩

/-- The comment is seen behind the quoted scalar, and the key in it is passed over. -/
theorem not_inComment_quotedTree : decode quotedText = .ok quotedTree ∧
    (quotedTree.search quotedText 2).found = some ⟨18, 20⟩ ∧
    ¬ InComment quotedText (quotedTree.span 2).start := by
  have hdecode : decode quotedText = .ok quotedTree := by decide +kernel
  have hfound : (quotedTree.search quotedText 2).found = some ⟨18, 20⟩ := by decide +kernel
  refine ⟨hdecode, hfound, fun hin => ?_⟩
  obtain ⟨_, before, body, -, hcomment, -, -, hopen⟩ :=
    (inComment_start_span_iff hdecode (by decide) hfound).mp hin
  -- the only number sign with an open quote before it is in the quoted scalar
  have hsigns : ∀ front ∈ quotedText.inits, front ++ ['#'] <+: quotedText →
      openQuote none (Text.lastLine front) ≠ none →
      ∃ l ∈ Yaml.literals quotedText, l.1 ≤ front.length ∧ front.length < l.2 := by
    decide +kernel
  have hprefix := hcomment.isPrefix
  obtain ⟨l, hl, hinside⟩ := hsigns before
    ((List.mem_inits _ _).mpr ((List.prefix_append before _).trans hprefix))
    (((List.prefix_append_right_inj before).mpr ⟨body, rfl⟩).trans hprefix)
    (hopen (by decide +kernel))
  exact hcomment.outside l hl hinside

/-! ### An apostrophe in a plain scalar -/

/-- A text with an apostrophe in a plain scalar, and a comment behind it. -/
def apostropheText : Text := "a: it's # b: x\nb: y\n".toList

/-- The tree of this text. -/
def apostropheTree : Tree :=
  ⟨#[⟨none, none, .mapping, none, [1, 2], 0, 3, Span.upTo 0 20⟩,
    ⟨some "a", some "it's", .scalar, some 0, [], 0, 2, Span.upTo 0 10⟩,
    ⟨some "b", some "y", .scalar, some 0, [], 1, 3, Span.upTo 10 20⟩]⟩

/-- **A node starts in a comment**: its key is found there, because the apostrophe before it is
counted as an opening quote. -/
theorem inComment_apostropheTree : decode apostropheText = .ok apostropheTree ∧
    (apostropheTree.search apostropheText 2).found = some ⟨10, 12⟩ ∧
    InComment apostropheText (apostropheTree.span 2).start := by
  refine ⟨by decide +kernel, by decide +kernel, "a: it's ".toList, " b: x".toList,
    ⟨⟨"\nb: y\n".toList, rfl⟩, rfl, ?_, by simp [isBreak]⟩, by decide +kernel, by decide +kernel⟩
  have hnone : Yaml.literals apostropheText = [] := by decide +kernel
  rw [hnone]
  exact fun l hl => absurd hl List.not_mem_nil

end Tree

end WorkflowLens
