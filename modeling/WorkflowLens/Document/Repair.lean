import WorkflowLens.Document.Decode

/-!
# Documents that are still being typed

A document that ends on the line of the caret often does not decode because its last line is not
finished.  Then the line is completed: open quotes and brackets are closed, or a bare word is
made a key.

* `OpenParts`: what is open at the end of a line, and the text that closes it.
* `repairs`: the completed lines to try, in order.
* `Tree.decodePartial?`: the tree of the text, or of the first completed text that has one.
-/

namespace WorkflowLens

/-- What is open at a place in a line. -/
structure OpenParts where
  /-- The quote that has not been closed. -/
  quote : Option Char
  /-- The brackets and braces that would close the open ones, the innermost first. -/
  closers : List Char
  deriving DecidableEq, Repr

namespace OpenParts

/-- Nothing is open. -/
def none : OpenParts := ⟨Option.none, []⟩

/-- What is open after one more character.  Inside quotes only the same quote counts, and a
closing bracket closes the innermost open one, whatever its form. -/
def next (o : OpenParts) (c : Char) : OpenParts :=
  match o.quote with
  | some q => if c == q then { o with quote := Option.none } else o
  | Option.none =>
    if c == '\x27' || c == '\x22' then { o with quote := some c }
    else if c == '[' then { o with closers := ']' :: o.closers }
    else if c == '{' then { o with closers := '}' :: o.closers }
    else if c == ']' || c == '}' then { o with closers := o.closers.drop 1 }
    else o

/-- What is open at the end of a line. -/
def ofLine (line : Text) : OpenParts := line.foldl next none

/-- The characters that close what is open, from inside out. -/
def closing (o : OpenParts) : Text := o.quote.toList ++ o.closers

end OpenParts

/-- The text after the dashes of nested items at its beginning. -/
def dropBullets : Text → Text
  | '-' :: ' ' :: t => dropBullets t
  | t => t

/-- The line with everything closed that is open, if anything is. -/
def closeLine? (line : Text) : Option Text :=
  let closing := (OpenParts.ofLine line).closing
  if closing.isEmpty then none else some (line ++ closing)

/-- The line as a key, if it holds a word that may be one. -/
def keyLine? (line : Text) : Option Text :=
  let trimmed := Text.trimEnd line
  let word := dropBullets (Text.trimStart trimmed)
  let startsOtherwise := word.head?.any fun c => c == '[' || c == '{' || c == '#'
  if word.isEmpty || (word.any fun c => c == ':') || startsOtherwise then none
  else some (trimmed ++ [':'])

/-- The completed forms of a line, in the order in which they are tried. -/
def repairs (line : Text) : List Text :=
  (closeLine? line).toList ++ (keyLine? line).toList

namespace Tree

/-- The tree of the first of several texts that has one. -/
def decodeFirst? : List Text → Except CutFault (Option Tree)
  | [] => .ok none
  | text :: texts => do
    match ← decode? text with
    | some t => return some t
    | none => decodeFirst? texts

/-- The tree of a text whose last line may be unfinished. -/
def decodePartial? (text : Text) : Except CutFault (Option Tree) :=
  let before := text.dropEndWhile fun c => c != '\n'
  let lastLine := text.takeEndWhile fun c => c != '\n'
  decodeFirst? (text :: (repairs lastLine).map fun line => before ++ line)

end Tree

end WorkflowLens
