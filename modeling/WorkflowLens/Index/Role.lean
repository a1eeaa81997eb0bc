import WorkflowLens.Tree.Basic

/-!
# Roles of nodes

What a node is in a workflow follows from the keys above it: jobs stand under the top-level
`jobs`, steps in the list `steps` of a job or of the top-level `runs`, and triggers under the
top-level `on`, which an older reading of YAML takes for the boolean `true`.

* `isTriggerRoot`, `isJob`, `isStep`, `isWorkflowCallChild`, `isTopLevel`: the roles.
* `Scope`: the job and the step that a node belongs to, and `Scope.sees`, which declarations
  count there.
-/

namespace WorkflowLens

namespace Tree

/-- Whether the parent of a node is the root. -/
def isTopLevel (t : Tree) (n : Nat) : Bool := (t.parent? n).any isRoot

/-- The mapping of triggers. -/
def isTriggerRoot (t : Tree) (n : Nat) : Bool :=
  (t.hasName "on" n || t.hasName "true" n) && t.isTopLevel n

/-- A job. -/
def isJob (t : Tree) (n : Nat) : Bool :=
  (t.name? n).isSome && (t.parent? n).any fun jobs => t.hasName "jobs" jobs && t.isTopLevel jobs

/-- Whether steps may be listed under a node: a job, or the top-level `runs`. -/
def ownsSteps (t : Tree) (n : Nat) : Bool :=
  t.isJob n || (t.hasName "runs" n && t.isTopLevel n)

/-- A step. -/
def isStep (t : Tree) (n : Nat) : Bool :=
  (t.name? n).isNone && (t.parent? n).any fun steps =>
    t.hasName "steps" steps && (t.parent? steps).any t.ownsSteps

/-- A child of the trigger for calls by other workflows. -/
def isWorkflowCallChild (t : Tree) (n : Nat) : Bool :=
  (t.parent? n).any fun call =>
    t.hasName "workflow_call" call && (t.parent? call).any t.isTriggerRoot

/-- The job that a node is or belongs to. -/
def jobOf? (t : Tree) (n : Nat) : Option Nat := (t.ancestorsOrSelf n).find? t.isJob

/-- The step that a node is or belongs to. -/
def stepOf? (t : Tree) (n : Nat) : Option Nat := (t.ancestorsOrSelf n).find? t.isStep

/-- Whether a node is or belongs to the outputs of the trigger for calls by other workflows. -/
def isInTriggerOutputs (t : Tree) (n : Nat) : Bool :=
  (t.ancestorsOrSelf n).any fun outputs =>
    t.hasName "outputs" outputs && t.isWorkflowCallChild outputs

/-- The description of a declaration: the text of its `description`, or else its own text. -/
def description (t : Tree) (n : Nat) : String :=
  ((t.childValue? n "description").or (t.value? n)).getD ""

end Tree

/-- A place in a workflow. -/
structure Scope where
  /-- The name of the job. -/
  job : Option String
  /-- The place of the step among the steps. -/
  step : Option Nat
  deriving DecidableEq, Repr

namespace Scope

/-- The place outside all jobs and steps. -/
def outside : Scope := ⟨none, none⟩

/-- The place of a node. -/
def ofNode (t : Tree) (n : Nat) : Scope :=
  ⟨(t.jobOf? n).bind t.name?, (t.stepOf? n).map t.index⟩

/-- Whether what a node of a tree declares counts at the place: the root's declarations count
everywhere, a job's in the job, and a step's in the step. -/
def sees (s : Scope) (t : Tree) (owner : Nat) : Bool :=
  if Tree.isRoot owner then true
  else if t.isJob owner then t.name? owner == s.job
  else if t.isStep owner then
    (((t.ancestors owner).find? t.isJob).bind t.name?) == s.job
      && some (t.index owner) == s.step
  else false

end Scope

end WorkflowLens
