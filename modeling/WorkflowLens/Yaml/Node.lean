import WorkflowLens.Yaml.Token

/-!
# The node graph of a YAML document

Tokens become nodes: scalars, sequences and mappings with their tags, and aliases that name an
anchored node by a number.

* `Node`: a node.
* `Reading`: the tokens still to read, the anchors met so far, and the handles of tags.
* `Node.ofTokens?`: the one node of a document, none if the text has no document.

An anchor that is set again takes a new number, which is the count of different names so far and
may be taken again by a later name; of several nodes with one number an alias means the last.
-/

namespace WorkflowLens.Yaml

/-- The tag and the anchor number written before a node. -/
structure Properties where
  tag : Option Text
  anchor : Option Nat
  deriving DecidableEq, Repr

/-- A node of a document. -/
inductive Node where
  | alias (anchor : Nat)
  | scalar (properties : Properties) (plain : Bool) (text : Text)
  | sequence (properties : Properties) (items : List Node)
  | mapping (properties : Properties) (entries : List (Node × Node))

/-- A node that is not written. -/
def Node.absent : Node := .scalar ⟨none, none⟩ true []

/-- The state of reading nodes. -/
structure Reading where
  tokens : List Token
  /-- The numbers of the anchors set so far, the last first. -/
  anchors : List (Text × Nat)
  /-- What the handles of tags stand for. -/
  handles : List (Text × Text)

/-- A step of reading. -/
abbrev Reader := StateT Reading (Except Error)

namespace Reader

/-- The next token. -/
def peek : Reader (Option Token) := do
  return (← get).tokens.head?

/-- Go on after the next token. -/
def skip : Reader Unit :=
  modify fun r => { r with tokens := r.tokens.drop 1 }

/-- The number of an anchor set before. -/
def anchorNamed (name : Text) : Reader Nat := do
  match (← get).anchors.lookup name with
  | some anchor => return anchor
  | none => throw .unknownAnchor

/-- The number of an anchor that is set here. -/
def setAnchor (name : Text) : Reader Nat := do
  let anchors := (← get).anchors
  let number := (anchors.map Prod.fst).eraseDups.length
  modify fun r => { r with anchors := (name, number) :: anchors }
  return number

/-- The tag that a handle and a suffix stand for. -/
def resolveTag (handle suffix : Text) : Reader Text := do
  if handle.isEmpty then return suffix
  match (← get).handles.lookup handle with
  | some expansion => return expansion ++ suffix
  | none => throw .unknownHandle

/-- The tag and the anchor before a node, in either order. -/
def properties : Reader Properties := do
  let anchor? : Reader (Option Text) := do
    match ← peek with
    | some (.anchor name) => skip; return some name
    | _ => return none
  let tag? : Reader (Option (Text × Text)) := do
    match ← peek with
    | some (.tag handle suffix) => skip; return some (handle, suffix)
    | _ => return none
  let (anchor, tag) ← do
    match ← anchor? with
    | some name => pure (some name, ← tag?)
    | none =>
      match ← tag? with
      | some tag => pure (← anchor?, some tag)
      | none => pure (none, none)
  let tag ← match tag with
    | some (handle, suffix) => some <$> resolveTag handle suffix
    | none => pure none
  let anchor ← match anchor with
    | some name => some <$> setAnchor name
    | none => pure none
  return ⟨tag, anchor⟩

mutual

/-- A node.  Block collections are allowed if `block`, and a sequence whose entries are not
indented if `indentless`. -/
def node : (steps : Nat) → (block indentless : Bool) → Reader Node
  | 0, _, _ => throw .outOfSteps
  | steps + 1, block, indentless => do
    if let some (.alias name) ← peek then
      skip
      return .alias (← anchorNamed name)
    let p ← properties
    match ← peek with
    | some (.scalar plain text) =>
      skip
      return .scalar { p with tag := p.tag.filter (· != ['!']) } plain text
    | some .flowSequenceStart => skip; return .sequence p (← flowItems steps true)
    | some .flowMappingStart => skip; return .mapping p (← flowEntries steps true)
    | some .blockEntry =>
      if indentless then return .sequence p (← indentlessItems steps) else bare p
    | some .blockSequenceStart =>
      if block then
        skip
        return .sequence p (← blockItems steps)
      else bare p
    | some .blockMappingStart =>
      if block then
        skip
        return .mapping p (← blockEntries steps)
      else bare p
    | _ => bare p

/-- A node of which only the properties are written. -/
def bare (p : Properties) : Reader Node :=
  if p.tag.isNone && p.anchor.isNone then throw .unexpectedToken
  else return .scalar p true []

/-- The items of an indented sequence. -/
def blockItems : (steps : Nat) → Reader (List Node)
  | 0 => throw .outOfSteps
  | steps + 1 => do
    match ← peek with
    | some .blockEntry =>
      skip
      let item ← match ← peek with
        | some .blockEntry | some .blockEnd => pure Node.absent
        | _ => node steps true false
      return item :: (← blockItems steps)
    | some .blockEnd => skip; return []
    | _ => throw .unexpectedToken

/-- The items of a sequence at the indentation of the mapping around it. -/
def indentlessItems : (steps : Nat) → Reader (List Node)
  | 0 => throw .outOfSteps
  | steps + 1 => do
    match ← peek with
    | some .blockEntry =>
      skip
      let item ← match ← peek with
        | some .blockEntry | some .key | some .value | some .blockEnd => pure Node.absent
        | _ => node steps true false
      return item :: (← indentlessItems steps)
    | _ => return []

/-- The entries of a block mapping. -/
def blockEntries : (steps : Nat) → Reader (List (Node × Node))
  | 0 => throw .outOfSteps
  | steps + 1 => do
    match ← peek with
    | some .key =>
      skip
      let key ← blockContent steps
      let value ← match ← peek with
        | some .value => skip; blockContent steps
        | _ => pure Node.absent
      return (key, value) :: (← blockEntries steps)
    | some .blockEnd => skip; return []
    | _ => throw .unexpectedToken

/-- A key or a value of a block mapping, which may be missing. -/
def blockContent : (steps : Nat) → Reader Node
  | 0 => throw .outOfSteps
  | steps + 1 => do
    match ← peek with
    | some .key | some .value | some .blockEnd => return Node.absent
    | _ => node steps true true

/-- The items of a sequence in brackets; `first` before any of them.  A key makes an item that
is a mapping of one entry. -/
def flowItems : (steps : Nat) → (first : Bool) → Reader (List Node)
  | 0, _ => throw .outOfSteps
  | steps + 1, first => do
    if (← peek) == some .flowSequenceEnd then
      skip
      return []
    if !first then
      if (← peek) != some .flowEntry then throw .unexpectedToken
      skip
    match ← peek with
    | some .key =>
      skip
      let entry ← flowPair steps
      return .mapping ⟨none, none⟩ [entry] :: (← flowItems steps false)
    | some .flowSequenceEnd => skip; return []
    | _ =>
      let item ← node steps false false
      return item :: (← flowItems steps false)

/-- The entry of a mapping that is an item of a sequence in brackets.  Where its key is missing
the token that shows this is taken with it. -/
def flowPair : (steps : Nat) → Reader (Node × Node)
  | 0 => throw .outOfSteps
  | steps + 1 => do
    let key ← match ← peek with
      | some .value | some .flowEntry | some .flowSequenceEnd => skip; pure Node.absent
      | _ => node steps false false
    let value ← match ← peek with
      | some .value =>
        skip
        match ← peek with
        | some .flowEntry | some .flowSequenceEnd => pure Node.absent
        | _ => node steps false false
      | _ => pure Node.absent
    return (key, value)

/-- The entries of a mapping in braces; `first` before any of them. -/
def flowEntries : (steps : Nat) → (first : Bool) → Reader (List (Node × Node))
  | 0, _ => throw .outOfSteps
  | steps + 1, first => do
    if (← peek) == some .flowMappingEnd then
      skip
      return []
    if !first then
      if (← peek) != some .flowEntry then throw .unexpectedToken
      skip
    match ← peek with
    | some .key =>
      skip
      let key ← match ← peek with
        | some .value | some .flowEntry | some .flowMappingEnd => pure Node.absent
        | _ => node steps false false
      let value ← match ← peek with
        | some .value =>
          skip
          match ← peek with
          | some .flowEntry | some .flowMappingEnd => pure Node.absent
          | _ => node steps false false
        | _ => pure Node.absent
      return (key, value) :: (← flowEntries steps false)
    | some .flowMappingEnd => skip; return []
    | _ =>
      let key ← node steps false false
      return (key, Node.absent) :: (← flowEntries steps false)

end

/-! ## Documents -/

/-- The handles that need no directive. -/
def defaultHandles : List (Text × Text) :=
  [(['!'], ['!']), (['!', '!'], "tag:yaml.org,2002:".toList)]

/-- Read the directives before a document: whether there is one for the version, and the handles
declared. -/
def directives : (steps : Nat) → (versioned : Bool) → List (Text × Text) →
    Reader (List (Text × Text))
  | 0, _, _ => throw .outOfSteps
  | steps + 1, versioned, handles => do
    match ← peek with
    | some (.versionDirective major minor) =>
      skip
      if versioned || major != 1 || (minor != 1 && minor != 2) then throw .badDirective
      directives steps true handles
    | some (.tagDirective handle expansion) =>
      skip
      if (handles.lookup handle).isSome then throw .badDirective
      directives steps versioned (handles ++ [(handle, expansion)])
    | _ => return handles

/-- The node of the document whose directives or content come next. -/
def document (steps : Nat) : Reader Node := do
  match ← peek with
  | some (.versionDirective ..) | some (.tagDirective ..) | some .documentStart =>
    let handles ← directives steps false []
    modify fun r => { r with handles := handles ++ defaultHandles }
    if (← peek) != some .documentStart then throw .unexpectedToken
    skip
    match ← peek with
    | none | some (.versionDirective ..) | some (.tagDirective ..) | some .documentStart
    | some .documentEnd => return Node.absent
    | _ => node steps true false
  | _ =>
    modify fun r => { r with handles := defaultHandles }
    node steps true false

end Reader

/-- The node of the one document of a list of tokens, none if there are no tokens.  Markers for
the end of a document may follow it, and nothing else. -/
def Node.ofTokens? (tokens : List Token) : Except Error (Option Node) :=
  if tokens.isEmpty then .ok none
  else do
    let (node, reading) ← (Reader.document (3 * tokens.length + 8)).run ⟨tokens, [], []⟩
    if reading.tokens.any (· != .documentEnd) then throw .severalDocuments
    return some node

end WorkflowLens.Yaml
