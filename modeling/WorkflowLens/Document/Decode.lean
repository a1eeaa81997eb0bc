import WorkflowLens.Tree.Locate

/-!
# Decoding a document

A text becomes a tree by way of its value and its outline, and then the nodes are located in the
text.  A document whose value is null is empty and has no tree.
-/

namespace WorkflowLens

/-- Why a text has no tree. -/
inductive DecodeError where
  /-- The text is not one YAML document. -/
  | yaml (cause : Yaml.Error)
  /-- The document is null, such as a text of comments only. -/
  | emptyDocument
  /-- A node was looked for at an offset that is no character boundary. -/
  | badCut (fault : CutFault)
  deriving DecidableEq, Repr

/-- The text of the error.  It does not go into the cause. -/
def DecodeError.message : DecodeError → String
  | .yaml _ => "YAML error"
  | .emptyDocument => "Empty document"
  | .badCut _ => "Bad offset"

namespace Tree

/-- The tree of a value, still without spans; none for null. -/
def ofValue? (v : Yaml.Value) : Option Tree :=
  if Outline.isNull v then none else some (ofOutline (Outline.ofValue v))

/-- The tree of a document. -/
def decode (text : Text) : Except DecodeError Tree := do
  let value ← (Yaml.Value.ofText text).mapError .yaml
  match ofValue? value with
  | some t => (t.locate text).mapError .badCut
  | none => throw .emptyDocument

/-- The tree of a document, or that it has none. -/
def decode? (text : Text) : Except CutFault (Option Tree) :=
  match decode text with
  | .ok t => .ok (some t)
  | .error (.badCut fault) => .error fault
  | .error _ => .ok none

end Tree

end WorkflowLens
