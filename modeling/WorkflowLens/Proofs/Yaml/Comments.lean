import WorkflowLens.Document.Decode

/-!
# Literals and comments of a text

A number sign at the beginning of a line or behind a blank begins a comment, except in a literal:
in quoted scalars and in the lines of block scalars it is a character like any other.  Where the
literals of a text are cannot be told by looking at quote characters, which are also found in
comments and in plain scalars such as `it's`.  It can be told by reading the text, so the literals
are collected here on the same way that the tokens are read.

* `Scan.atToken`: the state at the next token.
* `Scan.literalsFrom`, `literals`: the literals on the way, and those of a text.
* `IsComment`, `InComment`: the comments of a text, and the offsets in them.
-/

namespace WorkflowLens.Yaml

theorem exists_of_bind_eq_ok {α β : Type} {x : Except Error α} {f : α → Except Error β} {b : β}
    (h : x >>= f = .ok b) : ∃ a, x = .ok a ∧ f a = .ok b := by
  cases x with
  | error cause => cases h
  | ok a => exact ⟨a, rfl, h⟩

namespace Scan

/-! ## One round -/

/-- The state at the next token: behind blanks and comments, and without the keys and the block
collections that are over there. -/
def atToken (s : Scan) : Except Error Scan := do
  let s ← toNextToken (s.cursor.rest.length + 1) s
  let s ← s.dropStaleKeys
  let column := s.cursor.column
  return s.closeBlocks fun indent => column < indent

/-! ## Literals -/

/-- The characters of the literal that is read from one state to another, counted from the
beginning of the text: a quoted scalar with its quotes, or the lines of a block scalar after the
line of its indicator.  No other token is a literal. -/
def literal? (s : Scan) (c : Char) (next : Scan) : Option (Nat × Nat) :=
  if c = '\x27' ∨ c = '\x22' then some (s.cursor.index, next.cursor.index)
  else if (c = '|' ∨ c = '>') ∧ !s.inFlow then
    match readBlockHeader (s.cursor.advance 1) with
    | .ok (_, _, lines) => some (lines.index, next.cursor.index)
    | .error _ => none
  else none

/-- The literals among the tokens from a state on. -/
def literalsFrom : (steps : Nat) → Scan → Except Error (List (Nat × Nat))
  | 0, _ => .error .outOfSteps
  | steps + 1, s => do
    let s ← s.atToken
    match s.cursor.rest with
    | [] => return []
    | c :: _ =>
      let next ← s.readToken c
      return (s.literal? c next).toList ++ (← literalsFrom steps next)

end Scan

/-- The literals of a text. -/
def literals (text : Text) : List (Nat × Nat) :=
  (Scan.literalsFrom (text.length + 1) (Scan.ofText text)).toOption.getD []

/-- A quoted scalar is a literal with its quotes, and a block scalar from its first line on to the
first character that is less indented. -/
example : literals "a: 'x # y' # b\nc: | # d\n  # x\n # e\n".toList = [(3, 10), (24, 31)] := by
  decide +kernel

/-! ## Comments -/

/-- A number sign behind `before` begins a comment that goes on with `body`: it stands at the
beginning of a line or behind a blank, outside literals, and no line ends in `body`. -/
structure IsComment (text before body : Text) : Prop where
  isPrefix : before ++ '#' :: body <+: text
  opens : before.getLast?.all (fun c => isSpace c || isBreak c) = true
  outside : ∀ l ∈ literals text, ¬ (l.1 ≤ before.length ∧ before.length < l.2)
  oneLine : ∀ c ∈ body, isBreak c = false

/-- An offset lies in a comment, behind its number sign. -/
def InComment (text : Text) (offset : Nat) : Prop :=
  ∃ before body, IsComment text before body ∧ before.byteSize < offset ∧
    offset < Text.byteSize (before ++ '#' :: body)

end WorkflowLens.Yaml
