import WorkflowLens.Text.FilePath
import WorkflowLens.Tree.Basic

/-!
# Kinds of documents

A document defines a workflow or an action, or is some other YAML file.  Its path tells which,
and without a path its top-level keys do.
-/

namespace WorkflowLens

/-- What a document defines. -/
inductive DocumentKind where
  | workflow | action | other
  deriving DecidableEq, Repr

namespace DocumentKind

/-- Whether the document defines a workflow. -/
def isWorkflow (k : DocumentKind) : Bool := k == .workflow

/-- Whether the document defines an action. -/
def isAction (k : DocumentKind) : Bool := k == .action

/-- The kind of a file by its path: a YAML file called `action` defines an action, and any other
YAML file right in `.github/workflows` a workflow. -/
def ofPath (path : Text) : DocumentKind :=
  match path.pathParts.reverse with
  | [] => .other
  | name :: folders =>
    let (stem, extension) := name.stemAndExtension
    if name = "..".toList then .other
    else if extension ≠ some "yml".toList ∧ extension ≠ some "yaml".toList then .other
    else if stem = "action".toList then .action
    else if folders.take 2 = ["workflows".toList, ".github".toList] then .workflow
    else .other

/-- The kind of a document by its top-level keys: `jobs` makes a workflow, and without it `runs`
makes an action. -/
def ofTree (t : Tree) : DocumentKind :=
  if (t.child? Tree.root "jobs").isSome then .workflow
  else if (t.child? Tree.root "runs").isSome then .action
  else .other

end DocumentKind

end WorkflowLens
