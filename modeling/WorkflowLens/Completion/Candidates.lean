import WorkflowLens.Completion.Context
import WorkflowLens.Completion.Item
import WorkflowLens.Completion.Request
import WorkflowLens.Index.Steps

/-!
# Candidates for a path

A path such as `jobs.build.outputs.ver` is followed from its context on.  Each depth has its
candidates: names of jobs, steps or variables first, then the word `outputs`, then names of
outputs.  A word that is no candidate of its depth ends the search, so that a path which names
nothing gets no suggestions; otherwise the candidates of the last depth go with the word that is
being typed.

* `Request.candidates`: the candidates at a depth.
* `Request.resolve`: where following a path ends.
* `Request.resolveAtCaret`: the same for the path at the caret.

Only the outputs of a step need the catalog.
-/

namespace WorkflowLens

/-- Where following a path ends. -/
inductive Outcome where
  /-- The caret is in no open expression. -/
  | noPath
  /-- A word of the path is no candidate of its depth. -/
  | abandoned
  /-- The items are candidates of the depth. -/
  | resolved (depth : Nat) (items : List Item)
  deriving DecidableEq, Repr

/-- The items that are offered. -/
def Outcome.items : Outcome → List Item
  | .resolved _ items => items
  | _ => []

/-- The outcome with only those items whose labels go with what has been typed. -/
def Outcome.matching (typed : Text) : Outcome → Outcome
  | .resolved depth items => .resolved depth (Item.matching typed items)
  | outcome => outcome

namespace Request

/-- The jobs that the caret's job needs, with their display names. -/
def neededJobs (r : Request) : List (String × String) :=
  match r.scope.job with
  | none => []
  | some job => (r.whole.needs job).map fun need => (need, (r.whole.jobs.get? need).getD "")

/-- The contexts offered at the caret when none is known: only that of jobs in the outputs of a
trigger, and none where a runner is named. -/
def contextItems (r : Request) : List Item :=
  if r.upToCaret.isInTriggerOutputs then
    [(Item.ofLabel "jobs" .job).withDetail (contextDescription "jobs")]
  else if r.upToCaret.currentName? = some "runs-on" ∨ r.upToCaret.currentName? = some "os" then []
  else Item.ofPairs .node contextNames

/-- The candidates for the word after the context. -/
def contextMembers (r : Request) : Context → List Item
  | .steps => Item.ofDictionary .step (r.whole.steps r.scope.job)
  | .jobs => Item.ofDictionary .job r.whole.jobs
  | .env => Item.ofDictionary .env (r.whole.envs r.scope)
  | .github => Item.ofPairs .env githubFields
  | .inputs => Item.ofDictionary .input r.whole.inputs
  | .secrets => Item.ofDictionary .secret r.whole.secrets
  | .needs => Item.ofPairs .needs r.neededJobs
  | .other => r.contextItems

/-- The outputs of the job or the step called `owner`. -/
def outputMembers {m : Type → Type} [Monad m] (r : Request) (catalog : Catalog m)
    (context : Context) (owner : String) : m (List Item) :=
  match context with
  | .jobs | .needs => return Item.ofDictionary .output (r.whole.jobOutputs owner)
  | .steps => return Item.ofDictionary .output (← r.whole.stepOutputs catalog r.scope.job owner)
  | _ => return []

/-- The candidates at a depth of a path. -/
def candidates {m : Type → Type} [Monad m] (r : Request) (catalog : Catalog m)
    (segments : List String) (depth : Nat) : m (List Item) :=
  let context := Context.ofSegments segments
  match depth with
  | 0 => return r.contextMembers context
  | 1 => return if context.hasOutputs then [Item.ofLabel "outputs" .output] else []
  | 2 =>
    match segments[1]? with
    | some owner => r.outputMembers catalog context owner
    | none => return []
  | _ => return []

/-- Where following words ends that come after the given depth and its candidates. -/
def follow {m : Type → Type} [Monad m] (candidatesAt : Nat → m (List Item)) :
    (depth : Nat) → List Item → List String → m Outcome
  | depth, items, [] => return .resolved depth items
  | depth, items, word :: words => do
    if items.any fun i => i.label == word then
      follow candidatesAt (depth + 1) (← candidatesAt (depth + 1)) words
    else return .abandoned

/-- Where following a path ends. -/
def resolve {m : Type → Type} [Monad m] (r : Request) (catalog : Catalog m)
    (path : Expression.Path) : m Outcome := do
  let candidatesAt := r.candidates catalog path.segments
  let outcome ← follow candidatesAt 0 (← candidatesAt 0) (path.segments.drop 1)
  return outcome.matching path.stem.toList

/-- Where following the path at the caret ends. -/
def resolveAtCaret {m : Type → Type} [Monad m] (r : Request) (catalog : Catalog m) : m Outcome :=
  match r.path? with
  | some path => r.resolve catalog path
  | none => return .noPath

end Request

end WorkflowLens
