import WorkflowLens.Text.FilePath
import WorkflowLens.Text.Search

/-!
# Files of a project

The files of a project lie in a directory of a file system.  A path from the project's root is
followed in it part by part, and only a file whose bytes are UTF-8 has a content.

* `FileTree`: a file system; `FileTree.insert` puts a file into it.
* `FileTree.walk?`: what stands at a path.
* `projectFilePath`: the path at which a file of a project is looked for.
* `FileTree.readProjectFile?`: the content of a file of a project.
-/

namespace WorkflowLens

/-- A file or a directory. -/
inductive FileTree where
  | file (bytes : List UInt8)
  | directory (entries : List (Text × FileTree))

/-- A path without every `./` at its beginning. -/
def dropHere : Text → Text
  | '.' :: '/' :: path => dropHere path
  | path => path

/-- The path at which a file of a project is looked for: a path from the project's root, unless
it is absolute once every `./` at its beginning is gone. -/
def projectFilePath (root relative : Text) : Text :=
  let relative := dropHere relative
  if relative.head? = some '/' then relative
  else if root.isEmpty || root.getLast? = some '/' then root ++ relative
  else root ++ '/' :: relative

namespace FileTree

/-- The directory without entries. -/
def empty : FileTree := .directory []

/-- The text that some bytes are in UTF-8. -/
def textOf? (bytes : List UInt8) : Option Text :=
  (String.fromUTF8? ⟨bytes.toArray⟩).map String.toList

/-- The tree with a file at the path of the given parts.  Directories on the way are made, and
what stood at the path goes away. -/
def insert (tree : FileTree) : List Text → List UInt8 → FileTree
  | [], bytes => .file bytes
  | part :: parts, bytes =>
    let entries :=
      match tree with
      | .directory entries => entries
      | .file _ => []
    let inner := ((entries.find? fun e => e.1 == part).map Prod.snd).getD empty
    .directory ((part, inner.insert parts bytes) :: entries.filter fun e => e.1 != part)

/-- What stands at the path of the given parts from the first of some directories, each of which
lies in the next.  A part that is empty or a dot stays, and two dots go up, but not further than
to the last directory. -/
def walk? : (here : FileTree) → (outer : List FileTree) → List Text → Option FileTree
  | here, _, [] => some here
  | .file _, _, _ :: _ => none
  | .directory entries, outer, part :: parts =>
    if part = [] ∨ part = ['.'] then walk? (.directory entries) outer parts
    else if part = ['.', '.'] then
      match outer with
      | [] => walk? (.directory entries) [] parts
      | above :: further => walk? above further parts
    else
      match entries.find? fun e => e.1 == part with
      | some (_, inner) => walk? inner (.directory entries :: outer) parts
      | none => none

/-- The content of the file at an absolute path. -/
def read? (system : FileTree) (path : Text) : Option Text :=
  match walk? system [] (Text.parts '/' path) with
  | some (.file bytes) => textOf? bytes
  | _ => none

/-- The content of a file of the project with the given root. -/
def readProjectFile? (system : FileTree) (root relative : Text) : Option Text :=
  system.read? (projectFilePath root relative)

end FileTree

end WorkflowLens
