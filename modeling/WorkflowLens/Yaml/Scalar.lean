import WorkflowLens.Yaml.Cursor

/-!
# The text of a scalar

Plain, quoted and block scalars may go on over several lines, and each style has its rule for
what the lines become.

* `Gap`: the blanks between two words.  Within a line they stand for themselves, a single line
  end becomes a space, and further line ends are kept.
* `readQuoted`, `readPlain`, `readBlock`: the text of a scalar and the cursor after it.

Each loop is given as many steps as there are characters, and takes at least one character in
each, so no loop runs out of steps.
-/

namespace WorkflowLens.Yaml

open Cursor

/-! ## Gaps between words -/

/-- The blanks between two words of a scalar. -/
structure Gap where
  /-- The spaces and tabs, if no line ends in the gap. -/
  spaces : Text
  /-- The first line end. -/
  firstBreak : Text
  /-- The line ends after the first. -/
  moreBreaks : Text
  /-- Whether a line ends in the gap. -/
  broken : Bool
  deriving DecidableEq, Repr

/-- The gap of no characters; `broken` if it comes after a line end that does not count. -/
def Gap.start (broken : Bool) : Gap := ⟨[], [], [], broken⟩

/-- What the gap becomes in the text of the scalar. -/
def Gap.text (g : Gap) : Text :=
  if !g.broken then g.spaces
  else if g.firstBreak = ['\n'] then
    if g.moreBreaks = [] then [' '] else g.moreBreaks
  else g.firstBreak ++ g.moreBreaks

/-- The gap at the cursor, going on from what is already read of it.  After a line end no tab may
stand before column `margin`. -/
def readGap (margin : Nat) : (steps : Nat) → Cursor → Gap → Except Error (Gap × Cursor)
  | 0, _, _ => .error .outOfSteps
  | steps + 1, c, g =>
    if c.atSpace then
      if g.broken then
        if c.column < margin && c.peek? == some '\t' then .error .badScalar
        else readGap margin steps (c.advance 1) g
      else
        readGap margin steps (c.advance 1) { g with spaces := g.spaces ++ c.rest.take 1 }
    else if c.atBreak then
      let (eol, c) := c.takeBreak
      if g.broken then readGap margin steps c { g with moreBreaks := g.moreBreaks ++ eol }
      else readGap margin steps c { g with spaces := [], firstBreak := eol, broken := true }
    else .ok (g, c)

/-! ## Quoted scalars -/

/-- The characters that stand after a backslash for one character. -/
def shortEscapes : List (Char × Char) := [
  ('0', '\x00'), ('a', '\x07'), ('b', '\x08'), ('t', '\t'), ('\t', '\t'), ('n', '\n'),
  ('v', '\x0b'), ('f', '\x0c'), ('r', '\r'), ('e', '\x1b'), (' ', ' '), ('\x22', '\x22'),
  ('/', '/'), ('\\', '\\'), ('N', '\u0085'), ('_', '\u00a0'), ('L', '\u2028'), ('P', '\u2029')]

/-- The number written by hexadecimal digits. -/
def hexNumber? (t : Text) : Option Nat :=
  t.foldlM (fun n c => (hexDigit? c).map (n * 16 + ·)) 0

/-- The character of an escape, from after its backslash. -/
def readEscape (c : Cursor) : Except Error (Char × Cursor) :=
  let byCode (count : Nat) : Except Error (Char × Cursor) :=
    let digits := (c.rest.drop 1).take count
    match if digits.length = count then hexNumber? digits else none with
    | some n =>
      if (0xD800 ≤ n && n ≤ 0xDFFF) || 0x10FFFF < n then .error .badScalar
      else .ok (Char.ofNat n, c.advance (count + 1))
    | none => .error .badScalar
  match c.peek? with
  | some 'x' => byCode 2
  | some 'u' => byCode 4
  | some 'U' => byCode 8
  | some x =>
    match shortEscapes.lookup x with
    | some y => .ok (y, c.advance 1)
    | none => .error .badScalar
  | none => .error .badScalar

/-- The characters of a quoted scalar up to the next blank, line end or closing quote, and
whether an escaped line end stopped them. -/
def readQuotedRun (quote : Char) : (steps : Nat) → Cursor → Except Error (Text × Bool × Cursor)
  | 0, _ => .error .outOfSteps
  | steps + 1, c =>
    match c.rest with
    | [] => .ok ([], false, c)
    | x :: t =>
      if isSpace x || isBreak x then .ok ([], false, c)
      else if x == quote then
        if quote == '\x27' && t.head? == some '\x27' then do
          let (run, escaped, c) ← readQuotedRun quote steps (c.advance 2)
          return (x :: run, escaped, c)
        else .ok ([], false, c)
      else if quote == '\x22' && x == '\\' then
        let c := c.advance 1
        if c.atBreak then .ok ([], true, c.takeBreak.2)
        else do
          let (y, c) ← readEscape c
          let (run, escaped, c) ← readQuotedRun quote steps c
          return (y :: run, escaped, c)
      else do
        let (run, escaped, c) ← readQuotedRun quote steps (c.advance 1)
        return (x :: run, escaped, c)

/-- The text of a quoted scalar from after its opening quote or from within. -/
def readQuotedRest (quote : Char) : (steps : Nat) → Cursor → Except Error (Text × Cursor)
  | 0, _ => .error .outOfSteps
  | steps + 1, c =>
    if c.atMarker '-' || c.atMarker '.' || c.rest.isEmpty then .error .badScalar
    else do
      let (run, escaped, c) ← readQuotedRun quote (c.rest.length + 1) c
      if c.peek? == some quote then return (run, c.advance 1)
      let (gap, c) ← readGap 0 (c.rest.length + 1) c (Gap.start escaped)
      let (rest, c) ← readQuotedRest quote steps c
      return (run ++ gap.text ++ rest, c)

/-- The text of the quoted scalar whose opening quote is at the cursor. -/
def readQuoted (quote : Char) (c : Cursor) : Except Error (Text × Cursor) :=
  readQuotedRest quote (c.rest.length + 1) (c.advance 1)

/-! ## Plain scalars -/

/-- A character that ends a plain scalar inside brackets or braces. -/
def isFlowIndicator (c : Char) : Bool :=
  c == ',' || c == '[' || c == ']' || c == '{' || c == '}'

/-- The characters of a plain scalar up to the next blank, line end or indicator. -/
def readPlainRun (inFlow : Bool) : (steps : Nat) → Cursor → Except Error (Text × Cursor)
  | 0, _ => .error .outOfSteps
  | steps + 1, c =>
    match c.rest with
    | [] => .ok ([], c)
    | x :: t =>
      if isSpace x || isBreak x then .ok ([], c)
      else if inFlow && x == ':' && t.head?.any (fun y => isFlowIndicator y || y == '?') then
        .error .badScalar
      else if (x == ':' && c.isWordEndAt 1) || (inFlow && isFlowIndicator x) then .ok ([], c)
      else do
        let (run, c) ← readPlainRun inFlow steps (c.advance 1)
        return (x :: run, c)

/-- The text of a plain scalar from within, after `gap`; whether a line ended behind its last
word; and the cursor after it. -/
def readPlainRest (inFlow : Bool) (margin : Nat) :
    (steps : Nat) → Cursor → Gap → Except Error (Text × Bool × Cursor)
  | 0, _, _ => .error .outOfSteps
  | steps + 1, c, gap =>
    if c.atMarker '-' || c.atMarker '.' || c.peek? == some '#' then .ok ([], gap.broken, c)
    else do
      let (run, c) ← readPlainRun inFlow (c.rest.length + 1) c
      if run.isEmpty then return ([], gap.broken, c)
      let here := gap.text ++ run
      if !(c.atSpace || c.atBreak) then return (here, false, c)
      let (next, c) ← readGap margin (c.rest.length + 1) c (Gap.start false)
      if !inFlow && c.column < margin then return (here, next.broken, c)
      let (rest, broken, c) ← readPlainRest inFlow margin steps c next
      return (here ++ rest, broken, c)

/-- The text of the plain scalar at the cursor, whether a line ended behind it, and the cursor
after it.  Outside brackets its lines must not start before column `margin`. -/
def readPlain (inFlow : Bool) (margin : Nat) (c : Cursor) :
    Except Error (Text × Bool × Cursor) :=
  readPlainRest inFlow margin (c.rest.length + 1) c (Gap.start false)

/-! ## Block scalars -/

/-- What becomes of the line ends at the end of a block scalar. -/
inductive Chomping where
  | strip | clip | keep
  deriving DecidableEq, Repr

/-- The chomping and the explicit indentation after the indicator of a block scalar, in either
order. -/
def readBlockHeader (c : Cursor) : Except Error (Chomping × Option Nat × Cursor) := do
  let chomping? (c : Cursor) : Option Chomping :=
    match c.peek? with
    | some '+' => some .keep
    | some '-' => some .strip
    | _ => none
  let digit? (c : Cursor) : Option Nat :=
    match c.peek? with
    | some x => if isDecimalDigit x then some (x.toNat - '0'.toNat) else none
    | none => none
  let (chomping, digit, c) :=
    match chomping? c with
    | some chomping =>
      match digit? (c.advance 1) with
      | some d => (chomping, some d, c.advance 2)
      | none => (chomping, none, c.advance 1)
    | none =>
      match digit? c with
      | some d =>
        match chomping? (c.advance 1) with
        | some chomping => (chomping, some d, c.advance 2)
        | none => (.clip, some d, c.advance 1)
      | none => (.clip, none, c)
  if digit = some 0 then throw .badScalar
  let c := c.skipRun isSpace
  let c := if c.peek? == some '#' then c.skipToBreak else c
  if !c.rest.isEmpty && !c.atBreak then throw .badScalar
  return (chomping, digit, c.takeBreak.2)

/-- The empty lines at the cursor, the deepest indentation among them, and the cursor at the
first character that is no indentation.  Indentation goes up to column `indent`, or has no
limit. -/
def readEmptyLines (indent : Option Nat) :
    (steps deepest : Nat) → Cursor → Except Error (Text × Nat × Cursor)
  | 0, _, _ => .error .outOfSteps
  | steps + 1, deepest, c =>
    let spaces := (c.rest.takeWhile (· == ' ')).length
    let c := c.advance (match indent with
      | some n => min spaces (n - c.column)
      | none => spaces)
    let deepest := max deepest c.column
    let indenting := match indent with
      | some n => c.column < n
      | none => true
    if indenting && c.peek? == some '\t' then .error .badScalar
    else if c.atBreak then do
      let (eol, c) := c.takeBreak
      let (breaks, deepest, c) ← readEmptyLines indent steps deepest c
      return (eol ++ breaks, deepest, c)
    else .ok ([], deepest, c)

/-- The lines of a block scalar: their text, the end of the last line, the empty lines after it,
and the cursor.  `eol` and `breaks` are those of the line before; in a folded scalar a single
line end between two lines that do not begin with a blank becomes a space. -/
def readBlockLines (folded : Bool) (indent : Nat) : (steps : Nat) → Cursor →
    (eol breaks : Text) → (afterBlank : Bool) → Except Error (Text × Text × Text × Cursor)
  | 0, _, _, _, _ => .error .outOfSteps
  | steps + 1, c, eol, breaks, afterBlank =>
    if c.column == indent && !c.rest.isEmpty then do
      let beforeBlank := c.atSpace
      let joint :=
        if folded && eol == ['\n'] && !afterBlank && !beforeBlank then
          if breaks.isEmpty then [' '] else []
        else eol
      let (line, c) := c.takeRun fun x => !isBreak x
      let (nextEol, c) := c.takeBreak
      let (nextBreaks, _, c) ← readEmptyLines (some indent) (c.rest.length + 1) 0 c
      let (rest, lastEol, lastBreaks, c) ←
        readBlockLines folded indent steps c nextEol nextBreaks beforeBlank
      return (joint ++ breaks ++ line ++ rest, lastEol, lastBreaks, c)
    else .ok ([], eol, breaks, c)

/-- The text of the block scalar whose indicator is at the cursor.  Its lines are indented by at
least `margin` columns. -/
def readBlock (folded : Bool) (margin : Nat) (c : Cursor) : Except Error (Text × Cursor) := do
  let (chomping, digit, c) ← readBlockHeader (c.advance 1)
  let explicit := digit.map fun d => margin - 1 + d
  let (breaks, deepest, c) ← readEmptyLines explicit (c.rest.length + 1) 0 c
  let indent := explicit.getD (max (max deepest margin) 1)
  let (text, eol, breaks, c) ←
    readBlockLines folded indent (c.rest.length + 1) c [] breaks false
  return match chomping with
    | .strip => (text, c)
    | .clip => (text ++ eol, c)
    | .keep => (text ++ eol ++ breaks, c)

end WorkflowLens.Yaml
