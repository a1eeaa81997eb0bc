import WorkflowLens.Action.Resolver
import WorkflowLens.Index.Steps

/-!
# Sessions

A session is a cache with the sources behind it and a clock, together with the calls made so far.
It changes by events: texts are resolved, and meanwhile time goes on and files change.

* `Session.resolve`: an action by way of the session's cache.
* `Event`, `Session.perform`, `Session.run`: what happens in a session.
* `Session.catalog`: the session as a source of knowledge about actions.
-/

namespace WorkflowLens

/-- The state behind a row of requests. -/
structure Session where
  lifetimes : Lifetimes
  sources : Sources
  /-- The time in seconds. -/
  now : Nat
  cache : Cache
  /-- The calls made so far, the first one first. -/
  calls : List Call

/-- What may happen in a session. -/
inductive Event where
  /-- The action of a text is asked for. -/
  | resolve (uses : String)
  /-- The inputs of an action are asked for. -/
  | inputs (uses : String)
  /-- The outputs of an action are asked for. -/
  | outputs (uses : String)
  /-- Seconds pass. -/
  | advance (seconds : Nat)
  /-- The clock is set. -/
  | setClock (time : Nat)
  /-- The host's answer changes for the file with the given one-line form. -/
  | setRemote (name : Text) (answer : Except FetchError Text)
  /-- A file of the project changes or goes away. -/
  | setFile (path : Text) (content : Option Text)
  /-- The account, if it matters, comes or goes. -/
  | setAccount (present : Bool)
  /-- An action of which nothing is known is put into the cache. -/
  | insert (uses : String) (expiresAt : Nat)
  /-- An action is put into the cache. -/
  | store (a : Action)
  /-- What is out of date at a time leaves the cache. -/
  | evict (time : Nat)
  /-- Everything leaves the cache. -/
  | clear

/-- The answer to an event. -/
inductive Reply where
  /-- An action. -/
  | action (a : Action)
  /-- Inputs or outputs. -/
  | parameters (d : Dictionary)
  /-- A number of actions in the cache. -/
  | count (n : Nat)
  /-- No answer. -/
  | done
  deriving DecidableEq

namespace Session

/-- The session in which nothing has happened. -/
def start (l : Lifetimes) (s : Sources) (now : Nat) : Session := ⟨l, s, now, Cache.empty, []⟩

/-- The session of a setup without a network and without a project. -/
def offline : Session := start Lifetimes.standard Sources.offline 0

/-- The files asked of the host so far. -/
def fetched (s : Session) : List RemoteFile :=
  s.calls.filterMap fun
    | .fetch file => some file
    | _ => none

/-- The files asked of the project so far, if there is one. -/
def readPaths (s : Session) : List Text :=
  if s.sources.project.isNone then []
  else s.calls.filterMap fun
    | .read path => some path
    | _ => none

/-- The action of a text.  The calls that were made stay made if there is no answer. -/
def resolve (uses : String) : ExceptT Fault (StateM Session) Action := fun s =>
  match (s.cache.resolve s.sources s.lifetimes s.now uses).run s.calls with
  | (.ok (a, cache), calls) => (.ok a, { s with cache, calls })
  | (.error fault, calls) => (.error fault, { s with calls })

/-- The session as a source of knowledge about actions. -/
def catalog : Catalog (ExceptT Fault (StateM Session)) where
  inputs uses := return (← resolve uses).inputs
  outputs uses := return (← resolve uses).outputs

/-- Put an action into the cache. -/
def store (a : Action) : ExceptT Fault (StateM Session) Reply := do
  let cache := (← get).cache.insert a
  modify fun s => { s with cache }
  return .count cache.size

/-- Change the session. -/
def change (f : Session → Session) : ExceptT Fault (StateM Session) Reply := do
  modify f
  return .done

/-- What an event answers, and what it makes of the session. -/
def perform : Event → ExceptT Fault (StateM Session) Reply
  | .resolve uses => return .action (← resolve uses)
  | .inputs uses => return .parameters (← catalog.inputs uses)
  | .outputs uses => return .parameters (← catalog.outputs uses)
  | .advance seconds => do
    let now ← Time.after (← get).now seconds
    change fun s => { s with now }
  | .setClock time => change fun s => { s with now := time }
  | .setRemote name answer => change fun s => { s with sources := s.sources.withAnswer name answer }
  | .setFile path content => change fun s => { s with sources := s.sources.withFile path content }
  | .setAccount present => change fun s => { s with sources := s.sources.withAccount present }
  | .insert uses expiresAt => store (Action.unknown uses expiresAt)
  | .store a => store a
  | .evict time => do
    let old := (← get).cache
    let cache := old.evict time
    modify fun s => { s with cache }
    return .count (old.size - cache.size)
  | .clear => do
    modify fun s => { s with cache := Cache.empty }
    return .count 0

/-- The answers to a row of events.  After an event that has no answer the row goes on. -/
def run : List Event → StateM Session (List (Except Fault Reply))
  | [] => return []
  | event :: events => return (← (perform event).run) :: (← run events)

end Session

end WorkflowLens
