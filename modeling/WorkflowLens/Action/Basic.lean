import WorkflowLens.Action.Reference
import WorkflowLens.Dictionary
import WorkflowLens.Fault

/-!
# Actions

What is known about the action or the reusable workflow that a text names: its inputs and its
outputs, and until when this counts as known.

* `Time.after`: a time so many seconds after another one.
* `Action.unknown`: an action of which nothing is known.
* `Action.isExpired`: whether the knowledge is out of date.
* `Action.storageKey`: the name under which a definition is kept on disk.
-/

namespace WorkflowLens

/-! ## Times -/

namespace Time

/-- The last time, 2^63 - 1.  Times are whole seconds since the beginning of 1970, in 64 bits with a
sign. -/
def latest : Nat := 0x7FFFFFFFFFFFFFFF

/-- The time some seconds after another one, if there is such a time. -/
def after (now seconds : Nat) : Except Fault Nat :=
  if now + seconds ≤ latest then .ok (now + seconds) else .error (.time now seconds)

variable {now seconds : Nat}

theorem after_of_le (h : now + seconds ≤ latest) : after now seconds = .ok (now + seconds) :=
  if_pos h

theorem after_of_lt (h : latest < now + seconds) :
    after now seconds = .error (.time now seconds) :=
  if_neg (Nat.not_le.mpr h)

end Time

/-! ## Actions -/

/-- What is known about the text of a `uses` key. -/
structure Action where
  /-- The text. -/
  uses : String
  /-- What the text names. -/
  reference : Reference
  /-- Whether it is an action, and not a workflow. -/
  isAction : Bool
  /-- The inputs with their descriptions. -/
  inputs : Dictionary
  /-- The outputs with their descriptions. -/
  outputs : Dictionary
  /-- The first moment at which this is out of date. -/
  expiresAt : Nat
  deriving DecidableEq

namespace Action

/-- The action of which nothing is known but its name. -/
def unknown (uses : String) (expiresAt : Nat) : Action :=
  ⟨uses, Reference.ofUses uses.toList, namesAction uses.toList, Dictionary.empty,
    Dictionary.empty, expiresAt⟩

/-- Whether the knowledge is out of date. -/
def isExpired (a : Action) (now : Nat) : Bool := a.expiresAt ≤ now

/-- Whether the action is defined in the project. -/
def isProject (a : Action) : Bool := a.reference.isProject

/-! ## Storage -/

/-- A path as a part of a storage key: without the name of definition files, with underscores for
slashes and dots, and with none of them at the ends. -/
def pathKey (path : Text) : Text :=
  let flat := (Text.eraseAll definitionFile path).map fun c =>
    if c == '/' || c == '.' then '_' else c
  Text.dropEndWhile (· == '_') (flat.dropWhile (· == '_'))

/-- The part of a storage key that stands for a path, with an underscore before it if it is not
empty. -/
def pathSuffix (path : Text) : Text :=
  let key := pathKey path
  if key.isEmpty then [] else '_' :: key

/-- The name under which the definition is kept on disk. -/
def storageKey (a : Action) : Text :=
  match a.reference with
  | .remote f => f.owner ++ '_' :: f.repo ++ pathSuffix f.path ++ '_' :: f.ref
  | .project path => "local_project".toList ++ pathSuffix path
  | _ => "none_".toList ++ a.uses.toList

end Action

end WorkflowLens
