import WorkflowLens.Dictionary
import WorkflowLens.Document.Repair
import WorkflowLens.Index.Kind
import WorkflowLens.Index.Role
import WorkflowLens.Text.Line
import WorkflowLens.Tree.Equality
import WorkflowLens.Tree.Packing

/-!
# Indexes

An index is a document that has been decoded for a caret.  A text that does not decode has an
index too, which knows nothing.

* `Index.ofText`, `Index.ofTextUpToCaret`: the index of a whole text, and of a text up to the end
  of the caret's line.
* `Index.currentNode?` and its job, step and scope.
* `Index.counterpart?`: the node that stands for a node of another decoding of the document.
-/

namespace WorkflowLens

/-- A decoded document and a caret. -/
structure Index where
  /-- The tree, if the text decodes. -/
  tree : Option Tree
  kind : DocumentKind
  caret : Nat

namespace Index

/-- The index of a tree.  A kind that is not known is taken from the tree. -/
def ofTree (tree : Option Tree) (kind : DocumentKind) (caret : Nat) : Index :=
  let kind :=
    match tree, kind with
    | some t, .other => DocumentKind.ofTree t
    | _, kind => kind
  ⟨tree, kind, caret⟩

/-- The index of a whole text. -/
def ofText (text : Text) (kind : DocumentKind) (caret : Nat) : Except CutFault Index := do
  return ofTree (← Tree.decode? text) kind caret

/-- The index of a text up to the end of the caret's line, which may be unfinished. -/
def ofTextUpToCaret (text : Text) (kind : DocumentKind) (caret : Nat) :
    Except CutFault Index := do
  let (before, _) ← text.cut (text.caretLineEnd caret)
  return ofTree (← Tree.decodePartial? before) kind caret

/-- The index with the tree as it is kept. -/
def pack (ix : Index) : Except Fault Index :=
  match ix.tree with
  | some t => do return { ix with tree := some (← t.pack) }
  | none => .ok ix

/-- Whether the text decodes. -/
def isDecoded (ix : Index) : Bool := ix.tree.isSome

/-- What a function finds in the tree. -/
def inTree? {α : Type} (ix : Index) (f : Tree → Option α) : Option α := ix.tree.bind f

/-- The dictionary that a function makes of the tree, empty without a tree. -/
def dictionary (ix : Index) (f : Tree → Dictionary) : Dictionary :=
  (ix.tree.map f).getD Dictionary.empty

/-- The root of the tree. -/
def root? (ix : Index) : Option Nat := ix.tree.map fun _ => Tree.root

/-- The node at an offset. -/
def nodeAt? (ix : Index) (offset : Nat) : Option Nat := ix.tree.map fun t => t.nodeAt offset

/-- The node at the caret. -/
def currentNode? (ix : Index) : Option Nat := ix.nodeAt? ix.caret

/-- What a function finds at the caret. -/
def atCaret? {α : Type} (ix : Index) (f : Tree → Nat → Option α) : Option α :=
  ix.inTree? fun t => f t (t.nodeAt ix.caret)

/-- The key of the node at the caret. -/
def currentName? (ix : Index) : Option String := ix.atCaret? Tree.name?

/-- The job that the caret is in. -/
def currentJob? (ix : Index) : Option Nat := ix.atCaret? Tree.jobOf?

/-- The step that the caret is in. -/
def currentStep? (ix : Index) : Option Nat := ix.atCaret? Tree.stepOf?

/-- The place of the caret. -/
def currentScope (ix : Index) : Scope :=
  (ix.atCaret? fun t n => some (Scope.ofNode t n)).getD Scope.outside

/-- Whether the caret is in the outputs of the trigger for calls by other workflows. -/
def isInTriggerOutputs (ix : Index) : Bool :=
  (ix.atCaret? fun t n => some (t.isInTriggerOutputs n)).getD false

/-! ## Jobs and steps -/

/-- The job with a name. -/
def job? (ix : Index) (job : String) : Option Nat :=
  ix.inTree? fun t => (t.child? Tree.root "jobs").bind fun jobs => t.child? jobs job

/-- The node whose steps count for a job: the job itself, or `runs` in an action, where the job
does not matter. -/
def stepsOwner? (ix : Index) (job : Option String) : Option Nat :=
  match ix.kind, job with
  | .action, _ => ix.inTree? fun t => t.child? Tree.root "runs"
  | _, some job => ix.job? job
  | _, none => none

/-! ## Two decodings of one document -/

/-- Whether a candidate stands for a wanted node of another tree: it has the same location, and a
scalar with a text is equal as well. -/
def standsFor (t : Tree) (candidate : Nat) (u : Tree) (wanted : Nat) : Bool :=
  t.location candidate == u.location wanted
    && (u.shape wanted != .scalar || (u.value? wanted).isNone
      || t.equal candidate u wanted)

/-- The node that stands for node `n` of another tree, or for its nearest ancestor for which
there is one. -/
def counterpart? (ix : Index) (u : Tree) (n : Nat) : Option Nat :=
  ix.inTree? fun t =>
    (u.ancestorsOrSelf n).findSome? fun wanted =>
      (List.range t.size).find? fun candidate => standsFor t candidate u wanted

end Index

end WorkflowLens
