import WorkflowLens.Action.Cache
import WorkflowLens.Action.Fetch
import WorkflowLens.Index.Declarations
import WorkflowLens.Tree.Packing

/-!
# Resolving references

The inputs and outputs of an action are read from its definition.  Asking for a definition is
costly, so what was found is kept for a while in a cache, and so is the fact that nothing was
found, for a shorter while.

* `Sources.definition`: the inputs and outputs in the definition that a reference names.
* `Action.ofSources`: what the sources tell about a text.  An action whose definition cannot be had
  has no inputs and outputs.
* `Cache.resolve`: the same by way of a cache.

Until when an answer is good is reckoned from the time of asking.  If that is later than the last
time there is, or if a definition is too long for the spans of its nodes, there is no answer and
nothing goes into the cache.
-/

namespace WorkflowLens

/-- How many seconds an action counts as known. -/
structure Lifetimes where
  /-- With its definition, or if it cannot have one. -/
  success : Nat
  /-- Without its definition. -/
  failure : Nat
  deriving DecidableEq, Repr

/-- A day, and ten minutes. -/
def Lifetimes.standard : Lifetimes := ⟨24 * 60 * 60, 10 * 60⟩

/-! ## Definitions -/

/-- The inputs and outputs of an action. -/
structure Definition where
  inputs : Dictionary
  outputs : Dictionary
  deriving DecidableEq

/-- The inputs and outputs that a file declares when it is read as an action or as a workflow. -/
def Definition.ofText (isAction : Bool) (content : Text) :
    Except Fault (Except DecodeError Definition) :=
  match Tree.decode content with
  | .ok t => do
    let t ← t.pack
    let ix := Index.ofTree (some t) (if isAction then .action else .workflow) 0
    return .ok ⟨ix.inputs, ix.outputs⟩
  | .error (.badCut fault) => .error (.cut fault)
  | .error cause => .ok (.error cause)

namespace Sources

/-- The content of the file that a reference names. -/
def content (s : Sources) : Reference → Asking (Except ResolveError Text)
  | .remote file => return (← s.fetch file).mapError .fetch
  | .project path => do
    match ← s.read path with
    | some content => return .ok content
    | none => return .error (.fetch (.notFound path))
  | r => return .error (.unsupported r.display)

/-- The inputs and outputs in the file that a reference names. -/
def definition (s : Sources) (r : Reference) (isAction : Bool) :
    ExceptT Fault Asking (Except ResolveError Definition) := do
  match ← s.content r with
  | .ok content => return (← Definition.ofText isAction content).mapError .invalid
  | .error cause => return .error cause

end Sources

/-- What the sources tell about the text of a `uses` key.  The lifetime of a success is added to the
time before anything is asked, and that of a failure when one has come. -/
def Action.ofSources (s : Sources) (l : Lifetimes) (now : Nat) (uses : String) :
    ExceptT Fault Asking Action := do
  let a := Action.unknown uses (← Time.after now l.success)
  if !a.reference.isFetchable then return a
  match ← s.definition a.reference a.isAction with
  | .ok d => return { a with inputs := d.inputs, outputs := d.outputs }
  | .error _ => return { a with expiresAt := ← Time.after now l.failure }

/-- The action of a text by way of a cache, and the cache afterwards: the action in the cache if it
is not out of date, and otherwise what the sources tell, which goes into the cache. -/
def Cache.resolve (c : Cache) (s : Sources) (l : Lifetimes) (now : Nat) (uses : String) :
    ExceptT Fault Asking (Action × Cache) := do
  match c.fresh? uses now with
  | some a => return (a, c)
  | none =>
    let a ← Action.ofSources s l now uses
    return (a, c.insert a)

end WorkflowLens
