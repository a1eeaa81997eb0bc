import WorkflowLens.Yaml.Node
import WorkflowLens.Yaml.Number

/-!
# The value of a YAML document

* `Value`: typed values.  Mappings keep their order and have no key twice.
* `Value.same`: equality of values, for which the order of mappings does not count.
* `Value.ofText`: the value of a text, by its tokens and nodes.

Collections may be nested 128 deep, and each alias counts anew, so a document can be larger than
its text but not endless.
-/

namespace WorkflowLens.Yaml

/-- A value of a document.  A tag that the application defines is kept, without its mark. -/
inductive Value where
  | null
  | bool (value : Bool)
  | number (value : Number)
  | string (value : String)
  | sequence (items : List Value)
  | mapping (entries : List (Value × Value))
  | tagged (tag : Text) (value : Value)

namespace Value

/-- A tag without a mark that is followed by anything. -/
def bareTag (tag : Text) : Text :=
  match tag with
  | '!' :: c :: rest => c :: rest
  | tag => tag

mutual

/-- Whether two values are the same. -/
def same : Value → Value → Bool
  | .null, .null => true
  | .bool a, .bool b => a == b
  | .number a, .number b => a.same b
  | .string a, .string b => a == b
  | .sequence xs, .sequence ys => sameItems xs ys
  | .mapping xs, .mapping ys => xs.length == ys.length && sameEntries xs ys
  | .tagged s a, .tagged t b => bareTag s == bareTag t && same a b
  | _, _ => false

/-- Whether two lists of values are the same. -/
def sameItems : List Value → List Value → Bool
  | [], [] => true
  | x :: xs, y :: ys => same x y && sameItems xs ys
  | _, _ => false

/-- Whether all entries of the first list are also in the second. -/
def sameEntries : List (Value × Value) → List (Value × Value) → Bool
  | [], _ => true
  | (k, v) :: xs, ys => (ys.any fun (k', v') => same k k' && same v v') && sameEntries xs ys

end

end Value

/-! ## Scalars -/

/-- The value of a plain scalar without a type. -/
def plainValue (t : Text) : Except Error Value :=
  if t.isEmpty || ["~", "null", "Null", "NULL"].contains (String.ofList t) then .ok .null
  else if ["true", "True", "TRUE"].contains (String.ofList t) then .ok (.bool true)
  else if ["false", "False", "FALSE"].contains (String.ofList t) then .ok (.bool false)
  else do
    match ← Number.ofPlain? t with
    | some n => return .number n
    | none => return .string (String.ofList t)

/-- The tag of a type that every document may use. -/
def coreTag (name : String) : Text :=
  "tag:yaml.org,2002:".toList ++ name.toList

/-- The value of a scalar with a tag for its type.  Of the known types the scalar must have the
form, whatever its style; any other tag makes it a string. -/
def typedValue (tag t : Text) : Except Error Value :=
  if tag = coreTag "bool" then
    if ["true", "True", "TRUE"].contains (String.ofList t) then .ok (.bool true)
    else if ["false", "False", "FALSE"].contains (String.ofList t) then .ok (.bool false)
    else .error .badValue
  else if tag = coreTag "int" then do
    match ← Number.ofInteger? t with
    | some n => return .number n
    | none => throw .badValue
  else if tag = coreTag "float" then
    match Number.float? t with
    | some x => .ok (.number (.float x))
    | none => .error .badValue
  else if tag = coreTag "null" then
    if ["~", "null", "Null", "NULL"].contains (String.ofList t) then .ok .null
    else .error .badValue
  else .ok (.string (String.ofList t))

/-- The value of a scalar.  Its tag is not asked if the node around it `isTagged` already. -/
def scalarValue (isTagged : Bool) (p : Properties) (plain : Bool) (t : Text) :
    Except Error Value :=
  match if isTagged then none else p.tag with
  | some tag => typedValue tag t
  | none => if plain then plainValue t else .ok (.string (String.ofList t))

/-! ## Nodes -/

mutual

/-- The number of events of a node: one for a scalar or an alias, two and those of the content
for a collection. -/
def Node.eventCount : Node → Nat
  | .alias _ => 1
  | .scalar .. => 1
  | .sequence _ items => 2 + Node.itemEventCount items
  | .mapping _ entries => 2 + Node.entryEventCount entries

/-- The number of events of several nodes. -/
def Node.itemEventCount : List Node → Nat
  | [] => 0
  | n :: ns => n.eventCount + Node.itemEventCount ns

/-- The number of events of the keys and values of a mapping. -/
def Node.entryEventCount : List (Node × Node) → Nat
  | [] => 0
  | (k, v) :: ns => k.eventCount + v.eventCount + Node.entryEventCount ns

end

/-- The properties of a node; an alias has none. -/
def Node.properties : Node → Properties
  | .alias _ => ⟨none, none⟩
  | .scalar p .. => p
  | .sequence p _ => p
  | .mapping p _ => p

mutual

/-- The anchored nodes of a node in the order of the text, itself first. -/
def Node.anchored : Node → List (Nat × Node)
  | .alias _ => []
  | .scalar p plain t => (p.anchor.map fun a => (a, Node.scalar p plain t)).toList
  | .sequence p items =>
    (p.anchor.map fun a => (a, Node.sequence p items)).toList ++ Node.anchoredItems items
  | .mapping p entries =>
    (p.anchor.map fun a => (a, Node.mapping p entries)).toList ++ Node.anchoredEntries entries

/-- The anchored nodes of several nodes. -/
def Node.anchoredItems : List Node → List (Nat × Node)
  | [] => []
  | n :: ns => n.anchored ++ Node.anchoredItems ns

/-- The anchored nodes of the keys and values of a mapping. -/
def Node.anchoredEntries : List (Node × Node) → List (Nat × Node)
  | [] => []
  | (k, v) :: ns => k.anchored ++ v.anchored ++ Node.anchoredEntries ns

end

/-- What aliases mean in a document, and how many may be followed. -/
structure Targets where
  /-- The anchored nodes, the last one first. -/
  nodes : List (Nat × Node)
  limit : Nat

/-- A step of composing a value; the state counts the aliases followed. -/
abbrev Composer := StateT Nat (Except Error)

/-- The node that an alias means; any other node means itself. -/
def Targets.follow (targets : Targets) : Node → Composer Node
  | .alias anchor => do
    let count := (← get) + 1
    set count
    if targets.limit < count then throw .tooManyAliases
    match targets.nodes.lookup anchor with
    | some n => return n
    | none => throw .unknownAnchor
  | n => return n

/-- The text of a tag that the application defines: what comes after the mark, or the mark
itself. -/
def localTag? : Option Text → Option Text
  | some ('!' :: rest) => some (if rest.isEmpty then ['!'] else rest)
  | _ => none

/-- The entries of a mapping so far, the last one first, and one more. -/
def composeEntry (compose : (isTagged : Bool) → Node → Composer Value) (isTagged : Bool)
    (pairs : List (Value × Value)) : Node × Node → Composer (List (Value × Value))
  | (k, v) => do
    let key ← compose isTagged k
    if pairs.any fun (other, _) => key.same other then throw .duplicateKey
    let value ← compose false v
    return (key, value) :: pairs

/-- The value of a node without the tag of the application.  Its children are composed by
`compose?`, which is none if they would be nested too deep. -/
def composeContent (compose? : Option ((isTagged : Bool) → Node → Composer Value))
    (isTagged : Bool) : Node → Composer Value
  | .alias _ => throw .unknownAnchor
  | .scalar p plain t => liftM (scalarValue isTagged p plain t)
  | .sequence _ items =>
    match compose? with
    | some compose => do
      let values ← items.mapM fun item => compose false item
      return .sequence values
    | none => throw .tooDeep
  | .mapping _ entries =>
    match compose? with
    | some compose => do
      let pairs ← entries.foldlM (composeEntry compose isTagged) []
      return .mapping pairs.reverse
    | none => throw .tooDeep

/-- The value of a node whose children are composed by `compose?`.  `isTagged` if the node
around it has a tag and no content of its own between; a tag here is then not asked. -/
def composeNode (targets : Targets)
    (compose? : Option ((isTagged : Bool) → Node → Composer Value)) (isTagged : Bool) (n : Node) :
    Composer Value := do
  let isTagged := isTagged && !(n matches .alias _)
  let n ← targets.follow n
  let tag := if isTagged then none else localTag? n.properties.tag
  let content ← composeContent compose? (isTagged || tag.isSome) n
  return match tag with
    | some tag => .tagged tag content
    | none => content

/-- The value of a node whose collections may be nested `depth` deep. -/
def composeValue (targets : Targets) : (depth : Nat) → (isTagged : Bool) → Node → Composer Value
  | 0 => composeNode targets none
  | depth + 1 => composeNode targets (some (composeValue targets depth))

/-- How deeply collections may be nested. -/
def maxDepth : Nat := 128

/-- The value of a document's node. -/
def Value.ofNode (n : Node) : Except Error Value :=
  (composeValue ⟨n.anchored.reverse, 100 * n.eventCount⟩ maxDepth false n).run' 0

/-- The value of a text; an empty text is null. -/
def Value.ofText (t : Text) : Except Error Value := do
  match ← Node.ofTokens? (← Token.ofText t) with
  | some n => Value.ofNode n
  | none => return .null

end WorkflowLens.Yaml
