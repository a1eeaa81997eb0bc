import WorkflowLens.Action.Reference
import WorkflowLens.Completion.Request

/-!
# Links

The text of a `uses` key links to the page of the repository that it names.

* `Link.ofNode?`: the link of a node.
* `links`: the links of a document.
-/

namespace WorkflowLens

/-- A link from a place in a document to a page. -/
structure Link where
  span : Span
  target : Text
  deriving DecidableEq, Repr

namespace Link

/-- What an editor shows over a link. -/
def tooltip : String := "Open repository"

/-- Where a value stands in the text of a node: at its first place after the first colon. -/
def valueOffset? (source value : Text) : Option Nat := do
  let (key, rest) ← Text.splitAtFirst? [':'] source
  let offset ← Text.find? value rest
  return key.byteSize + 1 + offset

/-- The link of a node, if its value is one line, names a repository and is found in the text. -/
def ofNode? (text : Text) (t : Tree) (n : Nat) : Option Link := do
  let value := (← t.value? n).toList
  if '\n' ∈ value then none
  let target ← (Reference.ofUses value).webUrl?
  let source ← (text.slice (t.span n).start (t.span n).stop).toOption
  let offset ← valueOffset? source value
  return ⟨Span.ofSize ((t.span n).start + offset) (Text.byteSize value), target⟩

end Link

/-- The links of a text, by an index of it or of its beginning. -/
def links (text : Text) (ix : Index) : List Link :=
  match ix.tree with
  | none => []
  | some t => (t.nodesWhere Tree.root (t.hasName "uses")).filterMap (Link.ofNode? text t)

/-- The links of a request's document. -/
def Request.links (r : Request) : List Link := WorkflowLens.links r.text r.whole

end WorkflowLens
