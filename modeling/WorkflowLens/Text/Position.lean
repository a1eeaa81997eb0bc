import WorkflowLens.Text.Basic

/-!
# Lines and columns

An editor may address a caret by a line and a column, both counted from zero.  Here a line ends
at a line feed only, and columns count characters.

* `lineCount`: the number of lines; a final line feed opens an empty last line.
* `offsetAt?`: the byte offset of a position; a column past the end of its line stands for the
  end, and a line past the last one has no offset.
* `caretAt`: the same for a caret, which always has an offset.
* `positionAt`: the position of a byte offset; an offset past the end stands for the end.
-/

namespace WorkflowLens

/-- A place in a text by line and column, both from zero. -/
structure Position where
  line : Nat
  column : Nat
  deriving DecidableEq, Repr

namespace Text

/-- The number of lines. -/
def lineCount (t : Text) : Nat :=
  t.count '\n' + 1

/-- The byte offset of the start of a line, and the text from there. -/
def lineFrom? : Text → (line : Nat) → Option (Nat × Text)
  | t, 0 => some (0, t)
  | [], _ + 1 => none
  | c :: t, line + 1 =>
    (lineFrom? t (if c = '\n' then line else line + 1)).map
      fun (start, rest) => (start + c.utf8Size, rest)

/-- The byte offset of a position. -/
def offsetAt? (t : Text) (p : Position) : Option Nat :=
  (t.lineFrom? p.line).map fun (start, rest) =>
    start + byteSize ((rest.takeWhile fun c => c != '\n').take p.column)

/-- The caret at a position; a position on no line stands for the end of the text. -/
def caretAt (t : Text) (p : Position) : Nat :=
  (t.offsetAt? p).getD t.byteSize

/-- The position of a byte offset. -/
def positionAt (t : Text) (offset : Nat) : Except CutFault Position := do
  let (before, _) ← t.cut (min offset t.byteSize)
  return ⟨before.count '\n', (before.takeEndWhile fun c => c != '\n').length⟩

end Text

end WorkflowLens
