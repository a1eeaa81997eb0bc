import WorkflowLens.Yaml.Value

/-!
# Outlines

An outline is what a document says to an editor: the names of mapping entries, the texts of
scalars, and which collections hold what.  Tags are gone, scalars are texts whatever their type,
and the items of a sequence that are null are left out.

* `Outline.ofValue`: the outline of a value.
* `Outline.size`: the number of nodes.
-/

namespace WorkflowLens

/-- The two kinds of collections. -/
inductive Collection where
  | mapping | sequence
  deriving DecidableEq, Repr

/-- The content of a document or of a part of it.  A child of a mapping has its key as name, if
the key is a scalar other than null; a child of a sequence has no name. -/
inductive Outline where
  | scalar (text : Option String)
  | collection (kind : Collection) (children : List (Option String × Outline))

namespace Outline

open Yaml (Value)

/-- The text of a scalar, whatever its tags; none for null and for collections. -/
def scalarText? : Value → Option String
  | .string s => some s
  | .bool true => some "true"
  | .bool false => some "false"
  | .number n => some (String.ofList n.text)
  | .tagged _ v => scalarText? v
  | _ => none

/-- Whether a value is null, whatever its tags. -/
def isNull : Value → Bool
  | .null => true
  | .tagged _ v => isNull v
  | _ => false

mutual

/-- The outline of a value. -/
def ofValue : Value → Outline
  | .sequence items => .collection .sequence (ofItems items)
  | .mapping entries => .collection .mapping (ofEntries entries)
  | .tagged _ v => ofValue v
  | v => .scalar (scalarText? v)

/-- The children of a sequence. -/
def ofItems : List Value → List (Option String × Outline)
  | [] => []
  | v :: items => if isNull v then ofItems items else (none, ofValue v) :: ofItems items

/-- The children of a mapping. -/
def ofEntries : List (Value × Value) → List (Option String × Outline)
  | [] => []
  | (k, v) :: entries => (scalarText? k, ofValue v) :: ofEntries entries

end

mutual

/-- The number of nodes of an outline. -/
def size : Outline → Nat
  | .scalar _ => 1
  | .collection _ children => 1 + sizeOfChildren children

/-- The number of nodes of several outlines. -/
def sizeOfChildren : List (Option String × Outline) → Nat
  | [] => 0
  | (_, o) :: children => o.size + sizeOfChildren children

end

end Outline

end WorkflowLens
