import WorkflowLens.Dictionary
import WorkflowLens.Text.Fuzzy

/-!
# Items of a completion list

An item offers a name, which an editor shows with an icon for its kind and with a detail, and puts
into the document when it is chosen.

* `Item.ofPairs`: the items of names with details; an item's priority is its place in the list.
* `Item.matching`: those items whose labels go with what has been typed.
-/

namespace WorkflowLens

/-- What an item names. -/
inductive ItemKind where
  | job | step | env | input | output | secret
  /-- A context of expressions. -/
  | node
  | needs
  deriving DecidableEq, Repr

/-- The number of the icon in the protocol of language servers: those of a class, a function, a
variable, a field, a property, a constant, a module and a reference. -/
def ItemKind.icon : ItemKind → Nat
  | .job => 7
  | .step => 3
  | .env => 6
  | .input => 5
  | .output => 10
  | .secret => 21
  | .node => 9
  | .needs => 18

/-- A name that is offered. -/
structure Item where
  /-- The name. -/
  label : String
  kind : ItemKind
  /-- What is shown beside the name. -/
  detail : Option String
  /-- What is put into the document, if it is not the name. -/
  insertText : Option String
  /-- The rank among the items; the smallest comes first. -/
  priority : Nat
  deriving DecidableEq, Repr

namespace Item

/-- The rank of an item that has not been given one. -/
def defaultPriority : Nat := 100

/-- The item that offers a name. -/
def ofLabel (label : String) (kind : ItemKind) : Item := ⟨label, kind, none, none, defaultPriority⟩

/-- The item with a detail; an empty text is no detail. -/
def withDetail (i : Item) (detail : String) : Item :=
  { i with detail := if detail = "" then none else some detail }

/-- The item with a text to put into the document. -/
def withInsertText (i : Item) (text : String) : Item := { i with insertText := some text }

/-- The item with a rank. -/
def withPriority (i : Item) (priority : Nat) : Item := { i with priority }

/-- What is put into the document. -/
def textToInsert (i : Item) : String := i.insertText.getD i.label

/-- The items of names with details, ranked in order. -/
def ofPairs (kind : ItemKind) (pairs : List (String × String)) : List Item :=
  pairs.mapIdx fun rank (name, detail) =>
    ((ofLabel name kind).withDetail detail).withPriority rank

/-- The items of a dictionary, ranked in order. -/
def ofDictionary (kind : ItemKind) (d : Dictionary) : List Item := ofPairs kind d.entries

/-- The items whose labels go with what has been typed. -/
def matching (typed : Text) (items : List Item) : List Item :=
  items.filter fun i => Text.fuzzyMatches typed i.label.toList

@[simp] theorem label_withDetail (i : Item) (detail : String) :
    (i.withDetail detail).label = i.label := rfl

@[simp] theorem label_withPriority (i : Item) (priority : Nat) :
    (i.withPriority priority).label = i.label := rfl

/-- The labels of the items of a list of pairs are the names in the list. -/
@[simp] theorem map_label_ofPairs (kind : ItemKind) (pairs : List (String × String)) :
    (ofPairs kind pairs).map label = pairs.map Prod.fst := by
  apply List.ext_getElem
  · simp [ofPairs]
  · intro i h₁ h₂
    simp [ofPairs, ofLabel]

end Item

end WorkflowLens
