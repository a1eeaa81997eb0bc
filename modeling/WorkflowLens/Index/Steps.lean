import WorkflowLens.Index.Declarations
import WorkflowLens.Index.Script

/-!
# Steps and the actions they use

What a step can take and give depends on the action that it uses.  The index does not know
actions; it asks a catalog, and the catalog may need effects to answer, such as fetching a file.

* `Catalog`: the inputs and outputs of actions.
* `Index.step?`, `Index.stepOutputs`: a step by its id, and its outputs.
* `Index.actionInputsAt?`: the inputs that can still be written at a node inside `with`.
-/

namespace WorkflowLens

/-- A source of knowledge about actions, by the texts of `uses`. -/
structure Catalog (m : Type → Type) where
  /-- The inputs of an action with their descriptions. -/
  inputs : String → m Dictionary
  /-- The outputs of an action with their descriptions. -/
  outputs : String → m Dictionary

/-- The catalog that knows no action. -/
def Catalog.empty {m : Type → Type} [Pure m] : Catalog m :=
  ⟨fun _ => pure Dictionary.empty, fun _ => pure Dictionary.empty⟩

namespace Index

/-- The step with an id among the steps of a job, or of an action. -/
def step? (ix : Index) (job : Option String) (id : String) : Option Nat :=
  ix.inTree? fun t =>
    (ix.stepsOwner? job).bind fun owner => (t.child? owner "steps").bind fun steps =>
      (t.children steps).find? fun step => t.childValue? step "id" == some id

/-- The text under a key of a step. -/
def stepValue? (ix : Index) (step : Nat) (key : String) : Option String :=
  ix.inTree? fun t => t.childValue? step key

/-- The outputs of a step: those of the action it uses, then those its script writes. -/
def stepOutputs {m : Type → Type} [Monad m] (ix : Index) (catalog : Catalog m)
    (job : Option String) (id : String) : m Dictionary := do
  match ix.step? job id with
  | none => return Dictionary.empty
  | some step =>
    let declared ← match ix.stepValue? step "uses" with
      | some uses => catalog.outputs uses
      | none => pure Dictionary.empty
    return match ix.stepValue? step "run" with
      | some script => declared.append (scriptOutputs script.toList)
      | none => declared

/-- The node `with` that a node is or is right inside of. -/
def withNode? (t : Tree) (n : Nat) : Option Nat :=
  if t.hasName "with" n then some n else (t.parent? n).filter (t.hasName "with")

/-- The node `with` around a node and the text of `uses` in the same step, if there are both. -/
def usesAround? (t : Tree) (n : Nat) : Option (Nat × String) :=
  (withNode? t n).bind fun block =>
    ((t.parent? block).filter t.isStep).bind fun step =>
      (t.childValue? step "uses").map fun uses => (block, uses)

/-- The keys written in a node `with`, apart from the one at node `n`, which is still being
typed. -/
def writtenNames (t : Tree) (block n : Nat) : List String :=
  ((t.children block).filter fun c => !(n != block && c == n)).filterMap t.name?

/-- The inputs that can be written at a node in or at a node `with`: those of the action that the
step uses, without those that are already there. -/
def actionInputsAt? {m : Type → Type} [Monad m] (ix : Index) (catalog : Catalog m) (n : Nat) :
    m (Option Dictionary) := do
  match ix.tree with
  | none => return none
  | some t =>
    match usesAround? t n with
    | none => return none
    | some (block, uses) =>
      return some ((writtenNames t block n).foldl Dictionary.erase (← catalog.inputs uses))

/-- The inputs that can be written at the caret. -/
def actionInputs? {m : Type → Type} [Monad m] (ix : Index) (catalog : Catalog m) :
    m (Option Dictionary) :=
  match ix.currentNode? with
  | some n => ix.actionInputsAt? catalog n
  | none => pure none

end Index

end WorkflowLens
