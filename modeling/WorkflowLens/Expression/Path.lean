import WorkflowLens.Expression.Token
import WorkflowLens.Span
import WorkflowLens.Text.Line

/-!
# The path at a caret

Inside an open `${{` on the caret's line the words before the caret may form a dotted path, such
as `jobs.build.outputs.ver`: its segments, and the word after the last dot, which is still being
typed.

* `Path.ofBody?`: the path at the end of an expression's text.  There is none after a member
  access on something other than a path, nor where no operand can begin.
* `Path.atCaret?`: the path at a caret of a document.
-/

namespace WorkflowLens.Expression

/-- A dotted path whose last word is being typed. -/
structure Path where
  /-- The words before the last dot, from the root. -/
  segments : List String
  /-- The word after the last dot, as far as it is typed. -/
  stem : String
  /-- Where the last word stands. -/
  span : Span
  deriving DecidableEq, Repr

namespace Path

/-- The root of the path, if a dot follows it. -/
def root? (p : Path) : Option String :=
  p.segments.head?

/-- The path with its span moved on by a number of bytes. -/
def shift (p : Path) (distance : Nat) : Path :=
  { p with span := p.span.shift distance }

/-- The identifiers, each followed by a dot, at the end of a token list that is given from its
end.  There is no answer when a dot follows anything else. -/
def segmentsBefore? : List Token → Option (List String)
  | [] => some []
  | [last] => if last.kind = .dot then none else some []
  | last :: word :: rest =>
    if last.kind = .dot then
      if word.kind = .identifier then
        (segmentsBefore? rest).map fun outer => outer ++ [String.ofList word.text]
      else none
    else some []

/-- The path at the end of an expression's text. -/
def ofBody? (body : Text) : Option Path :=
  let here := Span.ofSize body.byteSize 0
  match (tokenize body).reverse with
  | [] => some ⟨[], "", here⟩
  | last :: rest =>
    if last.kind = .identifier then
      (segmentsBefore? rest).map fun segments =>
        ⟨segments, String.ofList last.text, Span.ofSize last.offset last.text.byteSize⟩
    else if last.kind = .dot ∨ last.kind.startsOperand then
      (segmentsBefore? (last :: rest)).map fun segments => ⟨segments, "", here⟩
    else none

/-- The characters that open an expression. -/
def opener : Text := ['$', '{', '{']

/-- The characters that close an expression. -/
def closer : Text := ['}', '}']

/-- The path at a caret of a document.  Only the caret's line counts, and on it the last opener
before the caret, if no closer follows it. -/
def atCaret? (text : Text) (caret : Nat) : Except CutFault (Option Path) := do
  let caret := min caret text.byteSize
  if !text.isBoundary caret then return none
  let lineStart := text.caretLineStart caret
  let before ← text.slice lineStart caret
  match Text.splitAtLast? opener before with
  | none => return none
  | some (outside, inside) =>
    if Text.contains closer inside then return none
    return (ofBody? inside).map fun path =>
      path.shift (lineStart + outside.byteSize + Text.byteSize opener)

end Path

end WorkflowLens.Expression
