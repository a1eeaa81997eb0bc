import WorkflowLens.Completion.Candidates

/-!
# Suggestions at the caret

In an open expression the path at the caret is completed.  Elsewhere `needs` gets the names of
the other jobs, and a block `with` the inputs of the action that its step uses.

* `Request.suggestions`: the items offered at the caret.
-/

namespace WorkflowLens.Request

/-- Whether the caret is at `needs` or at an item of its list. -/
def isInNeeds (r : Request) : Bool :=
  (r.upToCaret.atCaret? fun t n =>
    some (t.hasName "needs" n || ((t.name? n).isNone && t.hasParent "needs" n))).getD false

/-- All jobs but the one that is being edited. -/
def otherJobs (r : Request) : Dictionary :=
  match r.scope.job with
  | some job => r.whole.jobs.erase job
  | none => r.whole.jobs

/-- The inputs that can be written at the caret.  The whole text is asked first, at the node that
stands for the caret's node, because it knows the keys written after the caret. -/
def inputsAtCaret {m : Type → Type} [Monad m] (r : Request) (catalog : Catalog m) :
    m Dictionary := do
  match r.upToCaret.tree with
  | none => return Dictionary.empty
  | some t =>
    let n := t.nodeAt r.upToCaret.caret
    let found ← match r.whole.counterpart? t n with
      | some anchor => r.whole.actionInputsAt? catalog anchor
      | none => pure none
    match found with
    | some inputs => return inputs
    | none => return (← r.upToCaret.actionInputsAt? catalog n).getD Dictionary.empty

/-- An input as a key: what is put into the document ends with a colon and a blank. -/
def keyItem (i : Item) : Item := i.withInsertText (i.label ++ ": ")

/-- The items offered outside expressions, whatever has been typed. -/
def structuralItems {m : Type → Type} [Monad m] (r : Request) (catalog : Catalog m) :
    m (List Item) := do
  if r.isInNeeds then return Item.ofDictionary .needs r.otherJobs
  else return (Item.ofDictionary .input (← r.inputsAtCaret catalog)).map keyItem

/-- The items offered at the caret. -/
def suggestions {m : Type → Type} [Monad m] (r : Request) (catalog : Catalog m) :
    m (List Item) := do
  match r.path? with
  | some path => return (← r.resolve catalog path).items
  | none => return Item.matching (r.text.wordBefore r.caret) (← r.structuralItems catalog)

end WorkflowLens.Request
