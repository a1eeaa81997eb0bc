import WorkflowLens.Text.Blank
import WorkflowLens.Text.Search

/-!
# References to actions

The text of a `uses` key names the file that defines an action or a reusable workflow:

* `owner/repo@ref` and `owner/repo/path@ref` name a file of a repository at a ref,
* a text that begins with a dot names a file of the project, and
* `docker://image` names a container image, which has no definition.

A path that is no YAML file is a directory, and the file in it is `action.yml`.  The owner ends
at the first slash after its first character, and the repository is as short as it can be: it
ends at the first place where `@ref` or `/path@ref` can follow, of which the second is preferred,
with the longest path.  So `splitRemote?` finds a reference whenever some splitting exists.

* `Reference.ofUses`: what a text names.
* `namesAction`: whether it names an action, and not a workflow.
* `Reference.display`, `RemoteFile.webUrl`: the texts made of a reference.
-/

namespace WorkflowLens

/-- A file of a repository at a ref. -/
structure RemoteFile where
  owner : Text
  repo : Text
  /-- The path in the repository. -/
  path : Text
  ref : Text
  deriving DecidableEq, Repr

/-- What the text of a `uses` key names. -/
inductive Reference where
  /-- A file of a repository. -/
  | remote (file : RemoteFile)
  /-- A file of the project, by its path from the project's root. -/
  | project (path : Text)
  /-- A container image. -/
  | docker (image : Text)
  /-- A text of no known form. -/
  | unresolved
  deriving DecidableEq, Repr

/-- The name of the file that defines the action of a directory. -/
def definitionFile : Text := "action.yml".toList

/-- Whether a text names an action: a path through a directory `workflows` names a workflow. -/
def namesAction (uses : Text) : Bool := !Text.contains "/workflows/".toList uses

namespace Reference

/-! ## Reading -/

/-- The path and the ref of a text in which the last at-sign counts that has a ref after it. -/
def splitRef? : Text → Option (Text × Text)
  | [] => none
  | c :: t =>
    match splitRef? t with
    | some (path, ref) => some (c :: path, ref)
    | none => if c = '@' ∧ t ≠ [] then some ([], t) else none

/-- The path, if any, and the ref of the text after a repository. -/
def splitPath? : Text → Option (Option Text × Text)
  | '/' :: c :: t => (splitRef? t).map fun (path, ref) => (some (c :: path), ref)
  | '@' :: c :: t => some (none, c :: t)
  | _ => none

/-- The rest of the repository, the path and the ref of a text. -/
def splitRepo? : Text → Option (Text × Option Text × Text)
  | [] => none
  | c :: t =>
    match splitPath? (c :: t) with
    | some (path, ref) => some ([], path, ref)
    | none => (splitRepo? t).map fun (repo, path, ref) => (c :: repo, path, ref)

/-- The owner, the repository, the path and the ref of a text.  Owner and repository have at
least one character each, whatever it is. -/
def splitRemote? : Text → Option (Text × Text × Option Text × Text)
  | [] => none
  | first :: t =>
    match t.dropWhile (· != '/') with
    | _ :: c :: rest => (splitRepo? rest).map fun (repo, path, ref) =>
        (first :: t.takeWhile (· != '/'), c :: repo, path, ref)
    | _ => none

/-- Whether a path is that of a YAML file. -/
def isYamlFile (path : Text) : Bool :=
  Text.endsWith ".yml".toList path || Text.endsWith ".yaml".toList path

/-- The file that a path in a repository stands for. -/
def definitionPath : Option Text → Text
  | none => definitionFile
  | some path => if isYamlFile path then path else path ++ '/' :: definitionFile

/-- The scheme of references to container images. -/
def dockerScheme : Text := "docker://".toList

/-- The file of the project that a text names. -/
def projectPath (uses : Text) : Text :=
  let folder := uses.dropEndWhile (· == '/')
  if namesAction uses then folder ++ '/' :: definitionFile else folder

/-- What a text without blanks around names. -/
def ofTrimmed (uses : Text) : Reference :=
  match Text.stripPrefix? dockerScheme uses with
  | some image => .docker image
  | none =>
    if uses.head? = some '.' then .project (projectPath uses)
    else if '\n' ∈ uses then .unresolved
    else
      match splitRemote? uses with
      | some (owner, repo, path, ref) => .remote ⟨owner, repo, definitionPath path, ref⟩
      | none => .unresolved

/-- What a text names. -/
def ofUses (uses : Text) : Reference := ofTrimmed (Text.trim uses)

/-! ## Properties -/

/-- Whether the reference names a file of the project. -/
def isProject : Reference → Bool
  | .project _ => true
  | _ => false

/-- Whether the reference names a file of a repository. -/
def isRemote : Reference → Bool
  | .remote _ => true
  | _ => false

/-- Whether the reference names a file. -/
def isFetchable (r : Reference) : Bool := r.isProject || r.isRemote

/-- The path of the file. -/
def path? : Reference → Option Text
  | .remote file => some file.path
  | .project path => some path
  | _ => none

end Reference

namespace RemoteFile

/-- The one-line form of the file's name. -/
def display (f : RemoteFile) : Text :=
  f.owner ++ '/' :: f.repo ++ '/' :: f.path ++ '@' :: f.ref

/-- The page of the repository, at the ref unless it is blank. -/
def webUrl (f : RemoteFile) : Text :=
  let page := "https://github.com/".toList ++ f.owner ++ '/' :: f.repo
  if (Text.trim f.ref).isEmpty then page else page ++ "/tree/".toList ++ f.ref

end RemoteFile

namespace Reference

/-- The one-line form of the reference. -/
def display : Reference → Text
  | .remote file => file.display
  | .project path => path
  | .docker image => dockerScheme ++ image
  | .unresolved => "<unresolved>".toList

/-- The page of the repository of a remote file. -/
def webUrl? : Reference → Option Text
  | .remote file => some file.webUrl
  | _ => none

end Reference

end WorkflowLens
