import WorkflowLens.Text.Blank
import WorkflowLens.Text.Search
import WorkflowLens.Tree.Basic

/-!
# Where nodes stand in the text

A value does not remember its place, so places are found again by walking the tree in pre-order
beside the text.  Each node is looked for from the place after the one before it:

* a named node by its key followed by a colon, outside comments;
* an unnamed scalar by the first line of its text;
* an unnamed collection by the dash of its item, or by its opening bracket or brace.

A node that is not found starts where the search began.  It ends where the next node that is not
its descendant starts, or at the end of the text.
-/

namespace WorkflowLens.Tree

/-- The place of a node, and the offset from which the next one is looked for. -/
structure Anchor where
  start : Nat
  next : Nat
  deriving DecidableEq, Repr

/-! ## Keys -/

/-- Whether a character is a quote. -/
def isQuote (c : Char) : Bool := c == '\x22' || c == '\x27'

/-- Whether a key may begin after a character. -/
def mayPrecedeKey (c : Char) : Bool :=
  Text.isBlank c || c == '{' || c == ',' || c == '?' || isQuote c

/-- Whether a comment has begun in a piece of a line, given the open quote and the character
before it.  A comment begins at a number sign at the beginning of the line or after a blank,
outside quotes. -/
def hasComment : (quote before : Option Char) → Text → Bool
  | _, _, [] => false
  | some q, _, c :: t => hasComment (if c == q then none else some q) (some c) t
  | none, before, c :: t =>
    if isQuote c then hasComment (some c) (some c) t
    else (c == '#' && before.all Text.isBlank) || hasComment none (some c) t

/-- Whether an offset lies in a comment. -/
def isInComment (text : Text) (offset : Nat) : Except CutFault Bool := do
  let (before, _) ← text.cut offset
  return hasComment none none (before.takeEndWhile fun c => c != '\n')

/-- The anchor of a key whose name stands at `start`, if it is a key there: after a blank or an
indicator, in quotes on both sides or on neither, outside comments, and before a colon. -/
def keyAt? (text name : Text) (start : Nat) : Except CutFault (Option Anchor) := do
  let (before, _) ← text.cut start
  let last := before.getLast?
  let quote := last.filter isQuote
  if !last.all mayPrecedeKey || (← isInComment text start) then return none
  let (_, rest) ← text.cut (start + name.byteSize)
  let unquoted :=
    match quote with
    | some q => Text.stripPrefix? [q] rest
    | none => some rest
  match unquoted with
  | none => return none
  | some rest =>
    let rest := rest.dropWhile fun c => c == ' ' || c == '\t'
    if !Text.startsWith [':'] rest then return none
    return some ⟨if quote.isSome then start - 1 else start,
      text.byteSize - Text.byteSize rest + 1⟩

/-- The anchor of the first of several places that is a key. -/
def firstKey? (text name : Text) : List Nat → Except CutFault (Option Anchor)
  | [] => .ok none
  | start :: starts => do
    match ← keyAt? text name start with
    | some anchor => return some anchor
    | none => firstKey? text name starts

/-- The anchor of the first key with a name at or after an offset. -/
def findKey? (text : Text) (cursor : Nat) (name : Text) : Except CutFault (Option Anchor) := do
  if name.isEmpty then return none
  let (_, rest) ← text.cut cursor
  firstKey? text name (Text.occurrencesFrom name cursor 0 rest)

/-! ## Items -/

/-- The anchor of the first line of a scalar's text at or after an offset. -/
def findScalar? (text : Text) (cursor : Nat) (value : Text) :
    Except CutFault (Option Anchor) := do
  let line := Text.trim (value.takeWhile fun c => c != '\n')
  if line.isEmpty then return none
  let (_, rest) ← text.cut cursor
  return (Text.find? line rest).map fun distance =>
    ⟨cursor + distance, cursor + distance + line.byteSize⟩

/-- The anchor of the first item marker in a piece of text that has the given offset and comes
after the given character: a dash between blanks, or the opener. -/
def markerIn? (opener : Char) : (offset : Nat) → (before : Option Char) → Text → Option Anchor
  | _, _, [] => none
  | offset, before, c :: t =>
    if (c == '-' && before.all Text.isBlank && t.head?.all Text.isBlank) || c == opener then
      some ⟨offset, offset + c.utf8Size⟩
    else markerIn? opener (offset + c.utf8Size) (some c) t

/-- The anchor of the first item marker at or after an offset. -/
def findMarker? (text : Text) (cursor : Nat) (opener : Char) :
    Except CutFault (Option Anchor) := do
  let (before, rest) ← text.cut cursor
  return markerIn? opener cursor before.getLast? rest

/-! ## Spans -/

/-- The anchor of a node at or after an offset. -/
def findAnchor? (text : Text) (cursor : Nat) (n : Node) : Except CutFault (Option Anchor) :=
  match n.name, n.shape, n.value with
  | some name, _, _ => findKey? text cursor name.toList
  | none, .scalar, some value => findScalar? text cursor value.toList
  | none, .scalar, none => .ok none
  | none, .mapping, _ => findMarker? text cursor '{'
  | none, .sequence, _ => findMarker? text cursor '['

/-- The starts of nodes in pre-order, the first one being looked for from `cursor`. -/
def startsFrom (text : Text) : (cursor : Nat) → List Node → Except CutFault (List Nat)
  | _, [] => .ok []
  | cursor, n :: ns => do
    let anchor := (← findAnchor? text cursor n).getD ⟨cursor, cursor⟩
    return anchor.start :: (← startsFrom text anchor.next ns)

/-- The starts of the nodes of a tree.  The root starts with the text. -/
def starts (t : Tree) (text : Text) : Except CutFault (List Nat) := do
  return 0 :: (← startsFrom text 0 (t.nodes.toList.drop 1))

/-- The tree with the spans that follow from the starts of its nodes. -/
def withStarts (t : Tree) (textSize : Nat) (starts : Array Nat) : Tree :=
  ⟨t.nodes.mapIdx fun i n =>
    { n with span := Span.upTo (starts[i]?.getD 0) (starts[n.stop]?.getD textSize) }⟩

/-- The tree with the spans of its nodes in a text. -/
def locate (t : Tree) (text : Text) : Except CutFault Tree := do
  return t.withStarts text.byteSize (← t.starts text).toArray

end WorkflowLens.Tree
