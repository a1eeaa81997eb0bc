import WorkflowLens.Text.Search

/-!
# Paths of files

A path is a text with slashes.  Empty parts and parts that name the same directory (`.`) do not
count.

* `parts`: the parts between slashes, all of them.
* `pathParts`: the parts that count.
* `stemAndExtension`: the two sides of the last dot of a file name, if something stands before
  it.
-/

namespace WorkflowLens.Text

/-- The parts of a text between the places of a separator. -/
def parts (separator : Char) : Text → List Text
  | [] => [[]]
  | c :: t =>
    if c = separator then [] :: parts separator t
    else
      match parts separator t with
      | [] => [[c]]
      | first :: rest => (c :: first) :: rest

/-- The parts of a path that count. -/
def pathParts (path : Text) : List Text :=
  (parts '/' path).filter fun part => part != [] && part != ['.']

/-- The stem of a file name, and its extension if it has one. -/
def stemAndExtension (name : Text) : Text × Option Text :=
  match splitAtLast? ['.'] name with
  | some (stem, extension) => if stem.isEmpty then (name, none) else (stem, some extension)
  | none => (name, none)

end WorkflowLens.Text
