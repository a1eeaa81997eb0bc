import WorkflowLens.Text.Search

/-!
# Reading a YAML text

A cursor is a place in a text: the characters from there on, how many characters come before,
and the line and column, both from zero.  Five line ends are known: line feed, carriage return,
the two of them as one, next line (U+0085), and the line and paragraph separators (U+2028,
U+2029).  All but the separators are read as a line feed.
-/

namespace WorkflowLens.Yaml

/-- Why a text is no YAML document, or no document that can be used. -/
inductive Error where
  /-- A character that may not occur in a document. -/
  | forbiddenCharacter
  /-- A directive that is malformed, unknown, repeated, or for another version. -/
  | badDirective
  /-- An indicator where none may stand, or a character that begins no token. -/
  | misplacedIndicator
  /-- A line that must be a key and has no colon. -/
  | missingColon
  /-- The name of an anchor or of an alias is empty or runs into other characters. -/
  | badName
  /-- A tag is malformed. -/
  | badTag
  /-- A scalar is not closed, has an unknown escape, or is indented by a tab. -/
  | badScalar
  /-- A token that the structure of the document does not allow. -/
  | unexpectedToken
  /-- A tag with a handle that no directive declares. -/
  | unknownHandle
  /-- An alias without an anchor before it. -/
  | unknownAnchor
  /-- Something follows the first document. -/
  | severalDocuments
  /-- Collections are nested too deeply. -/
  | tooDeep
  /-- Aliases are followed too often. -/
  | tooManyAliases
  /-- A scalar does not have the type of its tag, or is an integer out of range. -/
  | badValue
  /-- A mapping has the same key twice. -/
  | duplicateKey
  /-- A reading function was given too few steps; the limits are chosen so that none is. -/
  | outOfSteps
  deriving DecidableEq, Repr

/-! ## Characters -/

/-- A character that may occur in a document. -/
def isAllowed (c : Char) : Bool :=
  let n := c.toNat
  n == 9 || n == 0xA || n == 0xD || (0x20 ≤ n && n ≤ 0x7E) || n == 0x85
    || (0xA0 ≤ n && n ≤ 0xD7FF) || (0xE000 ≤ n && n ≤ 0xFFFD) || 0x10000 ≤ n

/-- A space or a tab. -/
def isSpace (c : Char) : Bool :=
  c == ' ' || c == '\t'

/-- A character that ends a line. -/
def isBreak (c : Char) : Bool :=
  let n := c.toNat
  n == 0xA || n == 0xD || n == 0x85 || n == 0x2028 || n == 0x2029

/-- A character of a directive's or an anchor's name. -/
def isNameChar (c : Char) : Bool :=
  ('a' ≤ c && c ≤ 'z') || ('A' ≤ c && c ≤ 'Z') || ('0' ≤ c && c ≤ '9') || c == '_' || c == '-'

/-- An ASCII digit. -/
def isDecimalDigit (c : Char) : Bool :=
  '0' ≤ c && c ≤ '9'

/-- The value of a hexadecimal digit. -/
def hexDigit? (c : Char) : Option Nat :=
  if '0' ≤ c ∧ c ≤ '9' then some (c.toNat - '0'.toNat)
  else if 'a' ≤ c ∧ c ≤ 'f' then some (c.toNat - 'a'.toNat + 10)
  else if 'A' ≤ c ∧ c ≤ 'F' then some (c.toNat - 'A'.toNat + 10)
  else none

/-! ## Cursors -/

/-- A place in a text. -/
structure Cursor where
  rest : Text
  index : Nat
  line : Nat
  column : Nat
  deriving DecidableEq, Repr

namespace Cursor

/-- The beginning of a text. -/
def ofText (t : Text) : Cursor := ⟨t, 0, 0, 0⟩

/-- The character at the cursor. -/
def peek? (c : Cursor) : Option Char := c.rest.head?

/-- The cursor after `n` characters of the same line. -/
def advance (c : Cursor) (n : Nat) : Cursor :=
  ⟨c.rest.drop n, c.index + n, c.line, c.column + n⟩

/-- Whether a blank, a line end or the end of the text lies `n` characters on. -/
def isWordEndAt (c : Cursor) (n : Nat) : Bool :=
  match c.rest.drop n with
  | [] => true
  | x :: _ => isSpace x || isBreak x

/-- Whether a line end is at the cursor. -/
def atBreak (c : Cursor) : Bool := c.peek?.any isBreak

/-- Whether a space or a tab is at the cursor. -/
def atSpace (c : Cursor) : Bool := c.peek?.any isSpace

/-- The longest run of characters of one line that satisfy `p`, and the cursor after it. -/
def takeRun (c : Cursor) (p : Char → Bool) : Text × Cursor :=
  let run := c.rest.takeWhile p
  (run, c.advance run.length)

/-- The cursor after the longest run of characters of one line that satisfy `p`. -/
def skipRun (c : Cursor) (p : Char → Bool) : Cursor :=
  (c.takeRun p).2

/-- The text that a line end stands for, and the cursor after it; nothing if there is none. -/
def takeBreak (c : Cursor) : Text × Cursor :=
  match c.rest with
  | '\r' :: '\n' :: t => (['\n'], ⟨t, c.index + 2, c.line + 1, 0⟩)
  | x :: t =>
    if isBreak x then
      (if x.toNat = 0x2028 ∨ x.toNat = 0x2029 then [x] else ['\n'],
        ⟨t, c.index + 1, c.line + 1, 0⟩)
    else ([], c)
  | [] => ([], c)

/-- The cursor after the rest of a line without its end. -/
def skipToBreak (c : Cursor) : Cursor :=
  c.skipRun fun x => !isBreak x

/-- Whether a line that begins or ends a document starts at the cursor, written with the given
character. -/
def atMarker (c : Cursor) (mark : Char) : Bool :=
  c.column == 0 && Text.startsWith [mark, mark, mark] c.rest && c.isWordEndAt 3

end Cursor

end WorkflowLens.Yaml
