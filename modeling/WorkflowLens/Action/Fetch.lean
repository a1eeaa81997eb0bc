import WorkflowLens.Action.Reference
import WorkflowLens.Document.Decode

/-!
# Getting files

Files of repositories are asked of a remote host and files of the project of the project.  Both
are functions here, so that everything else can be said without a network or a disk.

* `FetchError`, `ResolveError`: why a file, or the definition in it, could not be had.
* `Call`, `Asking`: the calls for files, recorded where they are made.
* `Sources`: where files come from.
* `ContentRequest`: what is asked of the host over the network.
-/

namespace WorkflowLens

/-- Why a file could not be had. -/
inductive FetchError where
  /-- There is no account with which to ask. -/
  | noAccount
  /-- There is no such file. -/
  | notFound (location : Text)
  /-- The host could not be reached. -/
  | network (reason : Text)
  /-- The file could not be read. -/
  | io (reason : Text)
  deriving DecidableEq, Repr

/-- The text of the error. -/
def FetchError.message : FetchError → Text
  | .noAccount => "No account configured for remote fetches".toList
  | .notFound location => "Not found: ".toList ++ location
  | .network reason => "Network error: ".toList ++ reason
  | .io reason => "IO error: ".toList ++ reason

/-- Why the definition of an action could not be had. -/
inductive ResolveError where
  /-- Its file could not be had. -/
  | fetch (cause : FetchError)
  /-- Its file has no tree. -/
  | invalid (cause : DecodeError)
  /-- The reference names no file. -/
  | unsupported (reference : Text)
  deriving DecidableEq, Repr

/-- The text of the error. -/
def ResolveError.message : ResolveError → Text
  | .fetch cause => cause.message
  | .invalid cause => "Invalid action definition: ".toList ++ cause.message.toList
  | .unsupported reference => "Unsupported reference: ".toList ++ reference

/-- The host's answers to requests for files. -/
abbrev RemoteHost := RemoteFile → Except FetchError Text

/-- The host of a setup without a network: no file can be had. -/
def RemoteHost.offline : RemoteHost := fun f =>
  .error (.network ("offline: ".toList ++ f.owner ++ '/' :: f.repo ++ '/' :: f.path))

/-! ## Calls -/

/-- A call for a file. -/
inductive Call where
  /-- The host is asked for a file. -/
  | fetch (file : RemoteFile)
  /-- The host would be asked for a file, but there is no account. -/
  | refused (file : RemoteFile)
  /-- A file of the project is read. -/
  | read (path : Text)
  deriving DecidableEq, Repr

/-- Something that may make calls.  The calls made so far are kept, the first one first. -/
abbrev Asking := StateM (List Call)

/-- Make a call. -/
def Asking.record (call : Call) : Asking Unit := modify fun calls => calls ++ [call]

/-! ## Sources -/

/-- Where files come from. -/
structure Sources where
  /-- The remote host. -/
  host : RemoteHost
  /-- Whether there is an account, where the host may be asked only with one. -/
  account : Option Bool
  /-- The contents of the project's files, if there is a project. -/
  project : Option (Text → Option Text)

namespace Sources

/-- The sources of a setup without a network and without a project. -/
def offline : Sources := ⟨RemoteHost.offline, none, none⟩

/-- Whether the host may be asked. -/
def isAccountAvailable (s : Sources) : Bool := s.account.getD true

/-- Ask the host for a file, if it may be asked. -/
def fetch (s : Sources) (file : RemoteFile) : Asking (Except FetchError Text) := do
  if s.isAccountAvailable then
    Asking.record (.fetch file)
    return s.host file
  else
    Asking.record (.refused file)
    return .error .noAccount

/-- Read a file of the project. -/
def read (s : Sources) (path : Text) : Asking (Option Text) := do
  Asking.record (.read path)
  return s.project.bind fun files => files path

/-! ## Changes -/

/-- The sources when the host gives another answer for the file with a one-line form. -/
def withAnswer (s : Sources) (name : Text) (answer : Except FetchError Text) : Sources :=
  { s with host := fun f => if f.display = name then answer else s.host f }

/-- The sources when a file of the project has another content or is gone.  Without a project
nothing changes. -/
def withFile (s : Sources) (path : Text) (content : Option Text) : Sources :=
  { s with project := s.project.map fun files p => if p = path then content else files p }

/-- The sources when the account comes or goes.  Where no account is needed nothing changes. -/
def withAccount (s : Sources) (present : Bool) : Sources :=
  { s with account := s.account.map fun _ => present }

end Sources

/-- A request for a file over the network. -/
structure ContentRequest where
  url : Text
  /-- The media type that is asked for. -/
  accept : Text
  deriving DecidableEq, Repr

/-- The request for a file, at the ref unless it is blank. -/
def ContentRequest.ofFile (f : RemoteFile) : ContentRequest where
  url :=
    let address := "https://api.github.com/repos/".toList ++ f.owner ++ '/' :: f.repo
      ++ "/contents/".toList ++ f.path.dropWhile (· == '/')
    if (Text.trim f.ref).isEmpty then address else address ++ "?ref=".toList ++ f.ref
  accept := "application/vnd.github.raw".toList

end WorkflowLens
