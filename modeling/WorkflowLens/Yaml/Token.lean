import WorkflowLens.Yaml.Scalar

/-!
# Tokens of a YAML text

Block structure is made explicit here: indentation becomes start and end tokens, and a node that
turns out to be a key gets its key token, and if needed the start of a mapping, written in front
of it after the fact.

* `Token`: the tokens.
* `Scan`: the state of reading: the tokens so far, the open indentations, and for each level of
  brackets the place where a key may have begun.
* `Token.ofText`: the tokens of a text.
-/

namespace WorkflowLens.Yaml

/-- A token.  The end of the text is the end of the list of tokens. -/
inductive Token where
  | versionDirective (major minor : Nat)
  | tagDirective (handle expansion : Text)
  | documentStart | documentEnd
  | blockSequenceStart | blockMappingStart | blockEnd
  | flowSequenceStart | flowSequenceEnd | flowMappingStart | flowMappingEnd
  | blockEntry | flowEntry | key | value
  | alias (name : Text)
  | anchor (name : Text)
  | tag (handle suffix : Text)
  | scalar (plain : Bool) (text : Text)
  deriving DecidableEq, Repr

/-- A place where a key may have begun that is not yet followed by its colon. -/
structure PendingKey where
  /-- Whether the structure of the document requires a key here. -/
  required : Bool
  /-- How many tokens come before the key. -/
  tokenCount : Nat
  index : Nat
  line : Nat
  column : Nat
  deriving DecidableEq, Repr

/-- The state of reading tokens. -/
structure Scan where
  cursor : Cursor
  /-- The tokens so far, the last one first. -/
  tokens : List Token
  /-- The columns of the open block collections, the innermost first. -/
  indents : List Nat
  /-- The pending keys outside the current brackets, one for each level, the innermost first. -/
  outerKeys : List (Option PendingKey)
  /-- The pending key of the current level. -/
  pending : Option PendingKey
  /-- Whether a key may begin at the cursor. -/
  keyAllowed : Bool

namespace Scan

/-- The state at the beginning of a text. -/
def ofText (t : Text) : Scan :=
  ⟨Cursor.ofText t, [], [], [], none, true⟩

/-- Whether the cursor is inside brackets or braces. -/
def inFlow (s : Scan) : Bool := !s.outerKeys.isEmpty

/-- The least column at which the content of the innermost block collection may stand. -/
def margin (s : Scan) : Nat :=
  match s.indents with
  | [] => 0
  | column :: _ => column + 1

/-- The state with a token added. -/
def emit (s : Scan) (t : Token) : Scan :=
  { s with tokens := t :: s.tokens }

/-- The state with a token written behind the first `count` tokens. -/
def emitAt (s : Scan) (count : Nat) (t : Token) : Scan :=
  { s with tokens := s.tokens.insertIdx (s.tokens.length - count) t }

/-- The state with the cursor `n` characters on. -/
def skip (s : Scan) (n : Nat) : Scan :=
  { s with cursor := s.cursor.advance n }

/-! ## Indentation -/

/-- The state without the block collections that `closes` says are over, which are the
innermost ones. -/
def closeBlocks (s : Scan) (closes : Nat → Bool) : Scan :=
  if s.inFlow then s
  else
    let ended := s.indents.takeWhile closes
    { s with
      indents := s.indents.drop ended.length
      tokens := List.replicate ended.length .blockEnd ++ s.tokens }

/-- The state with a block collection opened at a column, behind the first `count` tokens, if
the column is deeper than the open ones. -/
def openBlock (s : Scan) (column count : Nat) (t : Token) : Scan :=
  if !s.inFlow && s.margin ≤ column then
    { s.emitAt count t with indents := column :: s.indents }
  else s

/-! ## Pending keys -/

/-- The state in which the pending key of this level is given up. -/
def dropKey (s : Scan) : Except Error Scan :=
  if s.pending.any PendingKey.required then .error .missingColon
  else .ok { s with pending := none }

/-- The state in which a key may have begun at the cursor. -/
def saveKey (s : Scan) : Except Error Scan := do
  if !s.keyAllowed then return s
  let required := !s.inFlow && s.indents.head? == some s.cursor.column
  let s ← s.dropKey
  let c := s.cursor
  return { s with pending := some ⟨required, s.tokens.length, c.index, c.line, c.column⟩ }

/-- Whether a key that began there can no longer be followed by its colon: a key lies on one line
and takes at most 1024 characters. -/
def isStale (c : Cursor) (k : PendingKey) : Bool :=
  k.line < c.line || k.index + 1024 < c.index

/-- The state without stale keys. -/
def dropStaleKeys (s : Scan) : Except Error Scan :=
  let stale (k : Option PendingKey) : Bool := k.any (isStale s.cursor)
  let keys := s.pending :: s.outerKeys
  if keys.any fun k => stale k && k.any PendingKey.required then .error .missingColon
  else
    .ok { s with
      pending := if stale s.pending then none else s.pending
      outerKeys := s.outerKeys.map fun k => if stale k then none else k }

/-! ## Blanks and comments -/

/-- The state at the next character that is neither blank nor in a comment.  Outside brackets a
new line allows a key again, and where a key may begin a tab is no blank. -/
def toNextToken : (steps : Nat) → Scan → Except Error Scan
  | 0, _ => .error .outOfSteps
  | steps + 1, s =>
    let c := s.cursor
    let c := if c.index = 0 ∧ c.peek? = some '\uFEFF' then c.advance 1 else c
    let tabs := s.inFlow || !s.keyAllowed
    let c := c.skipRun fun x => x == ' ' || (tabs && x == '\t')
    let c := if c.peek? == some '#' then c.skipToBreak else c
    if c.atBreak then
      toNextToken steps { s with
        cursor := c.takeBreak.2
        keyAllowed := s.keyAllowed || !s.inFlow }
    else .ok { s with cursor := c }

/-! ## Directives -/

/-- A number of at most nine digits. -/
def readVersionNumber (c : Cursor) : Except Error (Nat × Cursor) :=
  let (digits, c) := c.takeRun isDecimalDigit
  if digits.isEmpty || 9 < digits.length then .error .badDirective
  else .ok (digits.foldl (fun n d => n * 10 + (d.toNat - '0'.toNat)) 0, c)

/-- The handle of a tag: an exclamation mark, and if the name after it is closed by a second one,
all of that.  In a directive a name must be closed. -/
def readTagHandle (inDirective : Bool) (c : Cursor) : Except Error (Text × Cursor) :=
  if c.peek? == some '!' then
    let (name, c) := (c.advance 1).takeRun isNameChar
    if c.peek? == some '!' then .ok ('!' :: name ++ ['!'], c.advance 1)
    else if inDirective && !name.isEmpty then .error .badDirective
    else .ok ('!' :: name, c)
  else .error .badTag

/-- The number of octets of a character that begins with the given octet in UTF-8. -/
def octetCount? (octet : Nat) : Option Nat :=
  if octet < 0x80 then some 1
  else if octet < 0xC0 then none
  else if octet < 0xE0 then some 2
  else if octet < 0xF0 then some 3
  else if octet < 0xF8 then some 4
  else none

/-- The octet written by a percent sign and two hexadecimal digits. -/
def readEscapedOctet (c : Cursor) : Except Error (Nat × Cursor) :=
  match c.rest with
  | '%' :: a :: b :: _ =>
    match hexDigit? a, hexDigit? b with
    | some high, some low => .ok (high * 16 + low, c.advance 3)
    | _, _ => .error .badTag
  | _ => .error .badTag

/-- `count` more escaped octets of a character whose first octets gave `n`. -/
def readTrailingOctets : (count n : Nat) → Cursor → Except Error (Nat × Cursor)
  | 0, n, c => .ok (n, c)
  | count + 1, n, c => do
    let (octet, c) ← readEscapedOctet c
    if octet < 0x80 || 0xC0 ≤ octet then throw .badTag
    readTrailingOctets count (n * 64 + (octet - 0x80)) c

/-- A character whose octets in UTF-8 are escaped.  A number that is no character stands for the
replacement character. -/
def readEscapedChar (c : Cursor) : Except Error (Char × Cursor) := do
  let (octet, c) ← readEscapedOctet c
  match octetCount? octet with
  | none => throw .badTag
  | some count =>
    let lead := if count = 1 then octet else octet % Nat.pow 2 (7 - count)
    let (n, c) ← readTrailingOctets (count - 1) lead c
    let least := if count = 4 then 0x10000 else if count = 3 then 0x800 else
      if count = 2 then 0x80 else 0
    if n < least || (0xD800 ≤ n && n ≤ 0xDFFF) || 0x10FFFF < n then return ('\uFFFD', c)
    return (Char.ofNat n, c)

/-- A character of a tag.  Commas and brackets belong to it only where brackets or a directive
delimit it. -/
def isTagChar (delimited : Bool) (c : Char) : Bool :=
  isNameChar c || [';', '/', '?', ':', '@', '&', '=', '+', '$', '.', '%', '!', '~', '*', '\x27',
    '(', ')'].contains c || (delimited && [',', '[', ']'].contains c)

/-- The characters of a tag from the cursor on. -/
def readTagRun (delimited : Bool) : (steps : Nat) → Cursor → Except Error (Text × Cursor)
  | 0, _ => .error .outOfSteps
  | steps + 1, c =>
    match c.rest with
    | [] => .ok ([], c)
    | x :: _ =>
      if !isTagChar delimited x then .ok ([], c)
      else do
        let (x, c) ← if x == '%' then readEscapedChar c else .ok (x, c.advance 1)
        let (rest, c) ← readTagRun delimited steps c
        return (x :: rest, c)

/-- A tag text that is not empty unless it goes on after `head`.  It ends before a null
character. -/
def readTagText (delimited : Bool) (head : Text) (c : Cursor) : Except Error (Text × Cursor) := do
  let (run, c) ← readTagRun delimited (c.rest.length + 1) c
  if head.isEmpty && run.isEmpty then throw .badTag
  return ((head.drop 1 ++ run).takeWhile fun x => x != '\x00', c)

/-- The directive at the cursor and the cursor after its line. -/
def readDirective (c : Cursor) : Except Error (Token × Cursor) := do
  let (name, c) := (c.advance 1).takeRun isNameChar
  if name.isEmpty || !c.isWordEndAt 0 then throw .badDirective
  let c := c.skipRun isSpace
  let (token, c) ←
    if name = ['Y', 'A', 'M', 'L'] then do
      let (major, c) ← readVersionNumber c
      if c.peek? != some '.' then throw .badDirective
      let (minor, c) ← readVersionNumber (c.advance 1)
      pure (Token.versionDirective major minor, c)
    else if name = ['T', 'A', 'G'] then do
      let (handle, c) ← readTagHandle true c
      if !c.atSpace then throw .badDirective
      let (expansion, c) ← readTagText true [] (c.skipRun isSpace)
      if !c.isWordEndAt 0 then throw .badDirective
      pure (Token.tagDirective handle expansion, c)
    else throw .badDirective
  let c := c.skipRun isSpace
  let c := if c.peek? == some '#' then c.skipToBreak else c
  if !c.rest.isEmpty && !c.atBreak then throw .badDirective
  return (token, c.takeBreak.2)

/-! ## Names and tags -/

/-- The name of the anchor or alias whose indicator is at the cursor. -/
def readName (c : Cursor) : Except Error (Text × Cursor) :=
  let (name, c) := (c.advance 1).takeRun isNameChar
  let ends := c.isWordEndAt 0 ||
    c.peek?.any fun x => ['?', ':', ',', ']', '}', '%', '@', '\x60'].contains x
  if name.isEmpty || !ends then .error .badName else .ok (name, c)

/-- The handle and the suffix of the tag at the cursor. -/
def readTag (inFlow : Bool) (c : Cursor) : Except Error (Token × Cursor) := do
  let (handle, suffix, c) ←
    if c.rest.drop 1 |>.head? |>.any (· == '<') then do
      let (suffix, c) ← readTagText true [] (c.advance 2)
      if c.peek? != some '>' then throw .badTag
      pure (([] : Text), suffix, c.advance 1)
    else do
      let (handle, c) ← readTagHandle false c
      if 2 ≤ handle.length && handle.getLast? == some '!' then
        let (suffix, c) ← readTagText false [] c
        pure (handle, suffix, c)
      else
        let (suffix, c) ← readTagText false handle c
        if suffix.isEmpty then pure ([], ['!'], c) else pure (['!'], suffix, c)
  if !(inFlow && c.peek? == some ',') && !c.isWordEndAt 0 then throw .badTag
  return (.tag handle suffix, c)

/-! ## One token -/

/-- The state after opening a flow collection.  The collection itself may be a key. -/
def openFlow (s : Scan) (t : Token) : Except Error Scan := do
  let s ← s.saveKey
  return { (s.emit t).skip 1 with
    outerKeys := s.pending :: s.outerKeys, pending := none, keyAllowed := true }

/-- The state after closing a flow collection. -/
def closeFlow (s : Scan) (t : Token) : Except Error Scan := do
  let s ← s.dropKey
  return { (s.emit t).skip 1 with
    outerKeys := s.outerKeys.drop 1
    pending := s.outerKeys.head?.getD none
    keyAllowed := false }

/-- The state after an indicator that opens a block collection where a key may begin. -/
def blockIndicator (s : Scan) (start t : Token) : Except Error Scan := do
  if !s.inFlow && !s.keyAllowed then throw .misplacedIndicator
  let s ← (s.openBlock s.cursor.column s.tokens.length start).dropKey
  return (s.emit t).skip 1

/-- The state after a colon.  A pending key is now known to be one. -/
def valueIndicator (s : Scan) : Except Error Scan :=
  match s.pending with
  | some k =>
    let s := (s.emitAt k.tokenCount .key).openBlock k.column k.tokenCount .blockMappingStart
    .ok { (s.emit .value).skip 1 with pending := none, keyAllowed := false }
  | none =>
    if !s.inFlow && !s.keyAllowed then .error .misplacedIndicator
    else
      let s := s.openBlock s.cursor.column s.tokens.length .blockMappingStart
      .ok { (s.emit .value).skip 1 with keyAllowed := !s.inFlow }

/-- The state after a document marker. -/
def documentMarker (s : Scan) (t : Token) : Except Error Scan := do
  let s ← (s.closeBlocks fun _ => true).dropKey
  return { (s.emit t).skip 3 with keyAllowed := false }

/-- The state after a token that may be a key and that `read` reads. -/
def possibleKey (s : Scan) (read : Cursor → Except Error (Token × Cursor)) :
    Except Error Scan := do
  let s ← s.saveKey
  let (t, c) ← read s.cursor
  return { s.emit t with cursor := c, keyAllowed := false }

/-- Whether a plain scalar may begin with `c`, the character at the cursor. -/
def startsPlain (s : Scan) (c : Char) : Bool :=
  let indicators := ['-', '?', ':', ',', '[', ']', '{', '}', '#', '&', '*', '!', '|', '>', '\x27',
    '\x22', '%', '@', '\x60']
  !(isSpace c || isBreak c || indicators.contains c)
    || (c == '-' && !(s.cursor.advance 1).atSpace)
    || (!s.inFlow && (c == '?' || c == ':') && !s.cursor.isWordEndAt 1)

/-- The state after the token that begins with `c`, the character at the cursor. -/
def readToken (s : Scan) (c : Char) : Except Error Scan :=
  let wordEnds := s.cursor.isWordEndAt 1
  if s.cursor.column = 0 ∧ c = '%' then do
    let s ← (s.closeBlocks fun _ => true).dropKey
    let (t, cursor) ← readDirective s.cursor
    return { s.emit t with cursor, keyAllowed := false }
  else if s.cursor.atMarker '-' then s.documentMarker .documentStart
  else if s.cursor.atMarker '.' then s.documentMarker .documentEnd
  else if c = '[' then s.openFlow .flowSequenceStart
  else if c = '{' then s.openFlow .flowMappingStart
  else if c = ']' then s.closeFlow .flowSequenceEnd
  else if c = '}' then s.closeFlow .flowMappingEnd
  else if c = ',' then do
    let s ← s.dropKey
    return { (s.emit .flowEntry).skip 1 with keyAllowed := true }
  else if c = '-' ∧ wordEnds then do
    let s ← s.blockIndicator .blockSequenceStart .blockEntry
    return { s with keyAllowed := true }
  else if c = '?' ∧ (s.inFlow ∨ wordEnds) then do
    let s ← s.blockIndicator .blockMappingStart .key
    return { s with keyAllowed := !s.inFlow }
  else if c = ':' ∧ (s.inFlow ∨ wordEnds) then s.valueIndicator
  else if c = '*' then
    s.possibleKey fun cursor => (readName cursor).map fun (name, cursor) => (.alias name, cursor)
  else if c = '&' then
    s.possibleKey fun cursor => (readName cursor).map fun (name, cursor) => (.anchor name, cursor)
  else if c = '!' then s.possibleKey (readTag s.inFlow)
  else if (c = '|' ∨ c = '>') ∧ !s.inFlow then do
    let s ← s.dropKey
    let (text, cursor) ← readBlock (c == '>') s.margin s.cursor
    return { s.emit (.scalar false text) with cursor, keyAllowed := true }
  else if c = '\x27' ∨ c = '\x22' then
    s.possibleKey fun cursor =>
      (readQuoted c cursor).map fun (text, cursor) => (.scalar false text, cursor)
  else if s.startsPlain c then do
    let s ← s.saveKey
    let (text, broken, cursor) ← readPlain s.inFlow s.margin s.cursor
    return { s.emit (.scalar true text) with cursor, keyAllowed := broken }
  else .error .misplacedIndicator

/-- All tokens from a state on, the last one first. -/
def readTokens : (steps : Nat) → Scan → Except Error (List Token)
  | 0, _ => .error .outOfSteps
  | steps + 1, s => do
    let s ← toNextToken (s.cursor.rest.length + 1) s
    let s ← s.dropStaleKeys
    let column := s.cursor.column
    let s := s.closeBlocks fun indent => column < indent
    match s.cursor.rest with
    | [] =>
      let s ← (s.closeBlocks fun _ => true).dropKey
      return s.tokens
    | c :: _ => readTokens steps (← s.readToken c)

end Scan

/-- The tokens of a text. -/
def Token.ofText (t : Text) : Except Error (List Token) :=
  if t.all isAllowed then
    (Scan.readTokens (t.length + 1) (Scan.ofText t)).map List.reverse
  else .error .forbiddenCharacter

end WorkflowLens.Yaml
