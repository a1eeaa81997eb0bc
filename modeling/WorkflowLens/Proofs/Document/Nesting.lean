import Mathlib.Data.List.Basic
import Mathlib.Data.List.Induction
import WorkflowLens.Document.Repair

/-!
# What is open at the end of a line

The scan of a line that is completed keeps the quote it is in and a stack of the brackets that are
to come.  What it finds can be said by the form of the line, without a scan.  In a balanced text
each quote and each bracket has its counterpart; a bracket is closed by a closing bracket of either
form, and between quotes brackets are characters like any other.  A closing bracket that has nothing
to close does not count, but it may only stand where no bracket is open.  So a line is cut by the
characters that are open at its end: what stands in front of the first of them is closed, and what
stands behind each of them does not close it.

A line can be cut like this in one way only, and the characters that the scan puts behind the line
are the counterparts of the open ones, the innermost first.  Each of them ends one open part and
leaves the other ones as they are.

* `IsBalanced`, `IsClosed`: texts at whose end nothing is open.
* `LeavesOpen`: the characters that are open at the end of a line, the innermost first.
* `LeavesOpen.close`: a counterpart closes the innermost open part.
* `exists_leavesOpen`, `LeavesOpen.closing_eq`: every line leaves something or nothing open, and the
  scan finds it.
* `repairs_closing_spec`: the completed line in which everything is closed.
-/

namespace WorkflowLens.Nesting

open WorkflowLens.Tree (isQuote)

/-! ## Quotes and brackets -/

/-- An opening bracket or brace. -/
def isOpening (c : Char) : Bool := c == '[' || c == '{'

/-- A closing bracket or brace. -/
def isClosing (c : Char) : Bool := c == ']' || c == '}'

/-- The counterpart of a quote or of an opening bracket.  A quote is its own. -/
def closerOf (c : Char) : Char := if c = '[' then ']' else if c = '{' then '}' else c

/-- The character whose counterpart is given. -/
def openerOf (c : Char) : Char := if c = ']' then '[' else if c = '}' then '{' else c

theorem isOpening_iff {c : Char} : isOpening c = true ↔ c = '[' ∨ c = '{' := by
  simp [isOpening]

theorem isClosing_iff {c : Char} : isClosing c = true ↔ c = ']' ∨ c = '}' := by
  simp [isClosing]

theorem isQuote_iff {c : Char} : isQuote c = true ↔ c = '\x22' ∨ c = '\x27' := by
  simp [isQuote]

theorem not_isOpening_of_isQuote {c : Char} (h : isQuote c = true) : ¬ isOpening c = true := by
  rcases isQuote_iff.mp h with rfl | rfl <;> decide

theorem isClosing_closerOf {c : Char} (h : isOpening c = true) : isClosing (closerOf c) = true := by
  rcases isOpening_iff.mp h with rfl | rfl <;> rfl

theorem closerOf_of_isQuote {c : Char} (h : isQuote c = true) : closerOf c = c := by
  rcases isQuote_iff.mp h with rfl | rfl <;> rfl

theorem openerOf_closerOf {c : Char} (h : isQuote c = true ∨ isOpening c = true) :
    openerOf (closerOf c) = c := by
  rcases h with h | h
  · rcases isQuote_iff.mp h with rfl | rfl <;> rfl
  · rcases isOpening_iff.mp h with rfl | rfl <;> rfl

/-! ## One character of the scan -/

section

variable {closers : List Char} {c q : Char}

theorem next_quote (h : isQuote q = true) :
    OpenParts.next ⟨none, closers⟩ q = ⟨some q, closers⟩ := by
  rcases isQuote_iff.mp h with rfl | rfl <;> rfl

theorem next_opening (h : isOpening c = true) :
    OpenParts.next ⟨none, closers⟩ c = ⟨none, closerOf c :: closers⟩ := by
  rcases isOpening_iff.mp h with rfl | rfl <;> rfl

theorem next_closing (h : isClosing c = true) :
    OpenParts.next ⟨none, closers⟩ c = ⟨none, closers.drop 1⟩ := by
  rcases isClosing_iff.mp h with rfl | rfl <;> rfl

theorem next_other (hquote : isQuote c = false) (hopening : isOpening c = false)
    (hclosing : isClosing c = false) : OpenParts.next ⟨none, closers⟩ c = ⟨none, closers⟩ := by
  simp only [isQuote, isOpening, isClosing, Bool.or_eq_false_iff] at hquote hopening hclosing
  simp [OpenParts.next, hquote, hopening, hclosing]

theorem next_same : OpenParts.next ⟨some q, closers⟩ q = ⟨none, closers⟩ := by
  simp [OpenParts.next]

theorem next_inside (h : c ≠ q) : OpenParts.next ⟨some q, closers⟩ c = ⟨some q, closers⟩ := by
  simp [OpenParts.next, h]

end

/-! ## Texts at whose end nothing is open -/

/-- Each quote and each bracket of a text has its counterpart in the text. -/
inductive IsBalanced : Text → Prop
  | nil : IsBalanced []
  | append {s t : Text} : IsBalanced s → IsBalanced t → IsBalanced (s ++ t)
  /-- A character that is neither a quote nor a bracket. -/
  | other {c : Char} : isQuote c = false → isOpening c = false → isClosing c = false →
      IsBalanced [c]
  /-- A text between two quotes, in which this quote does not stand. -/
  | quoted {q : Char} {s : Text} : isQuote q = true → q ∉ s → IsBalanced (q :: (s ++ [q]))
  /-- A text between two brackets. -/
  | bracketed {c d : Char} {s : Text} : isOpening c = true → IsBalanced s → isClosing d = true →
      IsBalanced (c :: (s ++ [d]))

/-- A text of balanced pieces and of closing brackets between them, which close nothing. -/
inductive IsClosed : Text → Prop
  | nil : IsClosed []
  | append {s t : Text} : IsClosed s → IsBalanced t → IsClosed (s ++ t)
  | stray {s : Text} {d : Char} : IsClosed s → isClosing d = true → IsClosed (s ++ [d])

theorem foldl_next_of_not_mem {q : Char} {s : Text} (h : q ∉ s) (closers : List Char) :
    s.foldl OpenParts.next ⟨some q, closers⟩ = ⟨some q, closers⟩ := by
  induction s with
  | nil => rfl
  | cons c s ih =>
    rw [List.mem_cons, not_or] at h
    rw [List.foldl_cons, next_inside (Ne.symm h.1), ih h.2]

/-- A balanced text does not change what is open. -/
theorem IsBalanced.foldl_next {t : Text} (h : IsBalanced t) (closers : List Char) :
    t.foldl OpenParts.next ⟨none, closers⟩ = ⟨none, closers⟩ := by
  induction h generalizing closers with
  | nil => rfl
  | append _ _ ihs iht => rw [List.foldl_append, ihs, iht]
  | other hquote hopening hclosing =>
    rw [List.foldl_cons, next_other hquote hopening hclosing, List.foldl_nil]
  | quoted hquote hnot =>
    rw [List.foldl_cons, next_quote hquote, List.foldl_append, foldl_next_of_not_mem hnot,
      List.foldl_cons, next_same, List.foldl_nil]
  | bracketed hopening _ hclosing ih =>
    rw [List.foldl_cons, next_opening hopening, List.foldl_append, ih, List.foldl_cons,
      next_closing hclosing, List.foldl_nil]
    rfl

theorem IsClosed.ofLine_eq {t : Text} (h : IsClosed t) : OpenParts.ofLine t = OpenParts.none := by
  unfold OpenParts.ofLine OpenParts.none
  induction h with
  | nil => rfl
  | append _ ht ih => rw [List.foldl_append, ih, ht.foldl_next]
  | stray _ hclosing ih => rw [List.foldl_append, ih, List.foldl_cons, next_closing hclosing]; rfl

/-! ## The characters that are open -/

/-- A quote or an opening bracket is not closed by what stands behind it. -/
inductive StaysOpen : Char → Text → Prop
  | quote {q : Char} {s : Text} : isQuote q = true → q ∉ s → StaysOpen q s
  | bracket {c : Char} {s : Text} : isOpening c = true → IsBalanced s → StaysOpen c s

/-- The characters of a line that are open at its end, the innermost first.  In an open quote
nothing else is opened, so the other ones are brackets. -/
inductive LeavesOpen : Text → Text → Prop
  | closed {t : Text} : IsClosed t → LeavesOpen t []
  | behind {t opened s : Text} {c : Char} : LeavesOpen t opened →
      (∀ b ∈ opened, isOpening b = true) → StaysOpen c s → LeavesOpen (t ++ c :: s) (c :: opened)

namespace LeavesOpen

variable {line opened s : Text} {b c : Char}

/-- The innermost open character is a quote or a bracket, and the other ones are brackets. -/
theorem cases_opened (h : LeavesOpen line opened) : (∀ b ∈ opened, isOpening b = true) ∨
    ∃ q rest, opened = q :: rest ∧ isQuote q = true ∧ ∀ b ∈ rest, isOpening b = true := by
  cases h with
  | closed => exact .inl (by simp)
  | @behind t opened s c _ hall hstays =>
    cases hstays with
    | quote hquote => exact .inr ⟨c, opened, rfl, hquote, hall⟩
    | bracket hopening => exact .inl (List.forall_mem_cons.mpr ⟨hopening, hall⟩)

theorem isQuote_or_isOpening (h : LeavesOpen line opened) (hb : b ∈ opened) :
    isQuote b = true ∨ isOpening b = true := by
  rcases h.cases_opened with hall | ⟨q, rest, rfl, hquote, hall⟩
  · exact .inr (hall b hb)
  · rcases List.mem_cons.mp hb with rfl | hb
    · exact .inl hquote
    · exact .inr (hall b hb)

/-! ### One more character -/

/-- What is balanced opens and closes nothing outside quotes. -/
theorem append_balanced (h : LeavesOpen line opened) (hall : ∀ b ∈ opened, isOpening b = true)
    (hs : IsBalanced s) : LeavesOpen (line ++ s) opened := by
  cases h with
  | closed ht => exact .closed (ht.append hs)
  | @behind t opened s' c ht hrest hstays =>
    rw [List.append_assoc, List.cons_append]
    cases hstays with
    | quote hquote => exact absurd (hall c List.mem_cons_self) (not_isOpening_of_isQuote hquote)
    | bracket hopening hs' => exact ht.behind hrest (.bracket hopening (hs'.append hs))

/-- Between quotes every other character is passed over. -/
theorem append_inside (h : LeavesOpen line (b :: opened)) (hquote : isQuote b = true)
    (hc : c ≠ b) : LeavesOpen (line ++ [c]) (b :: opened) := by
  cases h with
  | behind ht hrest hstays =>
    rw [List.append_assoc, List.cons_append]
    cases hstays with
    | quote _ hnot =>
      refine ht.behind hrest (.quote hquote ?_)
      rw [List.mem_append, List.mem_singleton, not_or]
      exact ⟨hnot, Ne.symm hc⟩
    | bracket hopening => exact absurd hopening (not_isOpening_of_isQuote hquote)

/-- A character that is neither a quote nor a bracket opens and closes nothing. -/
theorem append_other (h : LeavesOpen line opened) (hquote : isQuote c = false)
    (hopening : isOpening c = false) (hclosing : isClosing c = false) :
    LeavesOpen (line ++ [c]) opened := by
  rcases h.cases_opened with hall | ⟨q, rest, rfl, hq, -⟩
  · exact h.append_balanced hall (.other hquote hopening hclosing)
  · refine h.append_inside hq ?_
    rintro rfl
    rw [hquote] at hq
    cases hq

/-- **The innermost open part is closed by its quote, or by a closing bracket of either form, and
the other ones stay open.** -/
theorem close (h : LeavesOpen line (b :: opened))
    (hcloses : isQuote b = true ∧ c = b ∨ isOpening b = true ∧ isClosing c = true) :
    LeavesOpen (line ++ [c]) opened := by
  cases h with
  | @behind t _ s _ ht hrest hstays =>
    have hpiece : IsBalanced (b :: (s ++ [c])) := by
      rcases hcloses with ⟨hquote, rfl⟩ | ⟨hopening, hclosing⟩
      · cases hstays with
        | quote _ hnot => exact .quoted hquote hnot
        | bracket hopening => exact absurd hopening (not_isOpening_of_isQuote hquote)
      · cases hstays with
        | quote hquote => exact absurd hopening (not_isOpening_of_isQuote hquote)
        | bracket _ hs => exact .bracketed hopening hs hclosing
    rw [List.append_assoc, List.cons_append]
    exact ht.append_balanced hrest hpiece

/-- The counterpart of the innermost open character closes it. -/
theorem close_closerOf (h : LeavesOpen line (b :: opened)) :
    LeavesOpen (line ++ [closerOf b]) opened := by
  refine h.close ?_
  rcases h.isQuote_or_isOpening List.mem_cons_self with hquote | hopening
  · exact .inl ⟨hquote, closerOf_of_isQuote hquote⟩
  · exact .inr ⟨hopening, isClosing_closerOf hopening⟩

/-- After some of the counterparts as many innermost parts are closed. -/
theorem append_take (h : LeavesOpen line opened) (n : Nat) :
    LeavesOpen (line ++ (opened.map closerOf).take n) (opened.drop n) := by
  induction n generalizing line opened with
  | zero => simpa using h
  | succ n ih =>
    cases opened with
    | nil => simpa using h
    | cons b opened =>
      have hrest := ih h.close_closerOf
      rwa [List.append_assoc, List.singleton_append] at hrest

/-! ### What the scan finds -/

theorem ofLine_of_forall (h : LeavesOpen line opened) (hall : ∀ b ∈ opened, isOpening b = true) :
    OpenParts.ofLine line = ⟨none, opened.map closerOf⟩ := by
  induction h with
  | closed ht => exact ht.ofLine_eq
  | @behind t opened s c _ hrest hstays ih =>
    have hstate := ih hrest
    rw [OpenParts.ofLine] at hstate ⊢
    have hopening := hall c List.mem_cons_self
    cases hstays with
    | quote hquote => exact absurd hopening (not_isOpening_of_isQuote hquote)
    | bracket _ hs =>
      rw [List.foldl_append, hstate, List.foldl_cons, next_opening hopening, hs.foldl_next,
        List.map_cons]

theorem ofLine_of_isQuote (h : LeavesOpen line (b :: opened)) (hquote : isQuote b = true) :
    OpenParts.ofLine line = ⟨some b, opened.map closerOf⟩ := by
  cases h with
  | behind ht hrest hstays =>
    have hstate := ht.ofLine_of_forall hrest
    rw [OpenParts.ofLine] at hstate ⊢
    cases hstays with
    | quote _ hnot =>
      rw [List.foldl_append, hstate, List.foldl_cons, next_quote hquote, foldl_next_of_not_mem hnot]
    | bracket hopening => exact absurd hopening (not_isOpening_of_isQuote hquote)

/-- **The scan finds the counterparts of what is open, the innermost first.** -/
theorem closing_eq (h : LeavesOpen line opened) :
    (OpenParts.ofLine line).closing = opened.map closerOf := by
  rcases h.cases_opened with hall | ⟨q, rest, rfl, hquote, -⟩
  · rw [h.ofLine_of_forall hall]
    rfl
  · rw [h.ofLine_of_isQuote hquote, List.map_cons, closerOf_of_isQuote hquote]
    rfl

/-- A line is cut by its open characters in one way only. -/
theorem opened_eq (h : LeavesOpen line opened) :
    opened = (OpenParts.ofLine line).closing.map openerOf := by
  rw [h.closing_eq, List.map_map, List.map_congr_left (g := id), List.map_id]
  exact fun b hb => openerOf_closerOf (h.isQuote_or_isOpening hb)

theorem ofLine_eq_none_iff (h : LeavesOpen line opened) :
    OpenParts.ofLine line = OpenParts.none ↔ opened = [] := by
  constructor
  · intro hnone
    rw [h.opened_eq, hnone]
    rfl
  · rintro rfl
    exact h.ofLine_of_forall (by simp)

/-- One more character leaves the same open, closes the innermost part, or opens another one. -/
theorem exists_append (h : LeavesOpen line opened) (c : Char) :
    ∃ opened', LeavesOpen (line ++ [c]) opened' := by
  rcases h.cases_opened with hall | ⟨q, rest, rfl, hquote, -⟩
  · by_cases hquote : isQuote c = true
    · exact ⟨_, h.behind hall (.quote hquote List.not_mem_nil)⟩
    by_cases hopening : isOpening c = true
    · exact ⟨_, h.behind hall (.bracket hopening .nil)⟩
    by_cases hclosing : isClosing c = true
    · cases h with
      | closed ht => exact ⟨_, .closed (ht.stray hclosing)⟩
      | @behind t opened s b ht hrest hstays =>
        exact ⟨_, (ht.behind hrest hstays).close (.inr ⟨hall b List.mem_cons_self, hclosing⟩)⟩
    · rw [Bool.not_eq_true] at hquote hopening hclosing
      exact ⟨_, h.append_other hquote hopening hclosing⟩
  · by_cases hc : c = q
    · exact ⟨_, h.close (.inl ⟨hquote, hc⟩)⟩
    · exact ⟨_, h.append_inside hquote hc⟩

end LeavesOpen

/-- At the end of every line something or nothing is open. -/
theorem exists_leavesOpen (line : Text) : ∃ opened, LeavesOpen line opened := by
  induction line using List.reverseRecOn with
  | nil => exact ⟨[], .closed .nil⟩
  | append_singleton line c ih =>
    obtain ⟨opened, h⟩ := ih
    exact h.exists_append c

theorem leavesOpen_nil_iff {line : Text} : LeavesOpen line [] ↔ IsClosed line := by
  refine ⟨fun h => ?_, .closed⟩
  cases h with
  | closed hline => exact hline

theorem isClosed_iff {line : Text} : IsClosed line ↔ OpenParts.ofLine line = OpenParts.none := by
  obtain ⟨opened, h⟩ := exists_leavesOpen line
  rw [h.ofLine_eq_none_iff]
  constructor
  · intro hclosed
    rw [h.opened_eq, hclosed.ofLine_eq]
    rfl
  · rintro rfl
    exact leavesOpen_nil_iff.mp h

instance (line : Text) : Decidable (IsClosed line) := decidable_of_iff _ isClosed_iff.symm

/-- A character that is neither a quote nor a bracket does not matter for what is closed. -/
theorem isClosed_concat_iff {line : Text} {c : Char} (hquote : isQuote c = false)
    (hopening : isOpening c = false) (hclosing : isClosing c = false) :
    IsClosed (line ++ [c]) ↔ IsClosed line := by
  refine ⟨fun h => ?_, fun h => h.append (.other hquote hopening hclosing)⟩
  obtain ⟨opened, hopened⟩ := exists_leavesOpen line
  have hnil := (hopened.append_other hquote hopening hclosing).opened_eq.trans
    (LeavesOpen.closed h).opened_eq.symm
  rwa [hnil, leavesOpen_nil_iff] at hopened

/-! ## The completed line -/

/-- A line in which nothing is open is not closed, and else its counterparts are put behind it. -/
theorem LeavesOpen.closeLine?_eq {line opened : Text} (h : LeavesOpen line opened) :
    closeLine? line = if opened = [] then none else some (line ++ opened.map closerOf) := by
  rw [closeLine?, h.closing_eq]
  cases opened <;> rfl

/-- A bracket between quotes is not open, and a brace is closed by a bracket too. -/
example : closeLine? "on: [push, \x7bx: y], '[', \x7bz: \"w".toList
    = some "on: [push, \x7bx: y], '[', \x7bz: \"w\"\x7d]".toList := by
  decide +kernel

/-- The line that is made a key ends with a colon. -/
theorem getLast?_of_keyLine? {line s : Text} (h : keyLine? line = some s) :
    s.getLast? = some ':' := by
  rw [keyLine?] at h
  split at h
  · cases h
  · rw [← Option.some.inj h, List.getLast?_concat]

/-- **The first completed line closes what is open, the innermost part first, with one character for
each of them.**  For every line there is exactly one list of characters that are open at its end,
and the scan keeps their counterparts.  If there are any, the first completed line is the line with
the counterparts behind it; each of these closes the innermost part that is still open, and behind
all of them nothing is.  If there are none, no completed line goes on with quotes and closing
brackets: the only one that may be left makes the line a key. -/
theorem repairs_closing_spec (line : Text) : ∃ opened, LeavesOpen line opened ∧
    (∀ other, LeavesOpen line other → other = opened) ∧
    (OpenParts.ofLine line).closing = opened.map closerOf ∧
    (OpenParts.ofLine line = OpenParts.none ↔ opened = []) ∧
    (opened ≠ [] → (repairs line).head? = some (line ++ opened.map closerOf)) ∧
    (∀ n, LeavesOpen (line ++ (opened.map closerOf).take n) (opened.drop n)) ∧
    OpenParts.ofLine (line ++ opened.map closerOf) = OpenParts.none ∧
    (opened = [] → repairs line = (keyLine? line).toList ∧
      ∀ suffix ≠ [], (∀ c ∈ suffix, isQuote c = true ∨ isClosing c = true) →
        line ++ suffix ∉ repairs line) := by
  obtain ⟨opened, h⟩ := exists_leavesOpen line
  have hrepairs : repairs line = (closeLine? line).toList ++ (keyLine? line).toList := rfl
  rw [h.closeLine?_eq] at hrepairs
  refine ⟨opened, h, fun other hother => hother.opened_eq.trans h.opened_eq.symm,
    h.closing_eq, h.ofLine_eq_none_iff, fun hne => ?_, h.append_take, ?_, fun hnil => ?_⟩
  · rw [hrepairs, if_neg hne]
    rfl
  · have hall := h.append_take opened.length
    rw [List.take_of_length_le (Nat.le_of_eq (List.length_map closerOf)), List.drop_length] at hall
    exact hall.ofLine_eq_none_iff.mpr rfl
  · rw [if_pos hnil, Option.toList_none, List.nil_append] at hrepairs
    refine ⟨hrepairs, fun suffix hne hclosers hmem => ?_⟩
    rw [hrepairs, Option.mem_toList] at hmem
    have hlast := getLast?_of_keyLine? hmem
    rw [List.getLast?_append_of_ne_nil _ hne] at hlast
    have hcolon := hclosers ':' (List.mem_of_getLast? hlast)
    exact absurd hcolon (by decide)

end WorkflowLens.Nesting
