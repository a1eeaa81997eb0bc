import WorkflowLens.Text.Identifier

/-!
# The line around a caret

Lines end at a line feed or a carriage return.  A caret that is no character boundary stands for
the last boundary before it, and one past the end stands for the end, so every caret has a line.

* `caretLineStart`, `caretLineEnd`: the offsets of the ends of the caret's line.
* `wordBefore`: the word that ends at the caret.
-/

namespace WorkflowLens.Text

/-- Whether a character ends a line. -/
def isLineEnd (c : Char) : Bool :=
  c == '\n' || c == '\r'

/-- The byte offset at which the caret's line ends, before its terminator. -/
def caretLineEnd (t : Text) (caret : Nat) : Nat :=
  let (before, after) := t.splitAtFloor caret
  byteSize before + byteSize (after.takeWhile fun c => !isLineEnd c)

/-- The byte offset at which the caret's line starts. -/
def caretLineStart (t : Text) (caret : Nat) : Nat :=
  byteSize (dropEndWhile (fun c => !isLineEnd c) (t.splitAtFloor caret).1)

/-- The longest run of word characters that ends at the caret. -/
def wordBefore (t : Text) (caret : Nat) : Text :=
  takeEndWhile isWordPart (t.splitAtFloor caret).1

end WorkflowLens.Text
