import WorkflowLens.Index.Basic

/-!
# What a document declares

Each list of declarations is collected from the children of all mappings with a certain key, as
far as they stand in the right place.  The order is that of the document, and of two
declarations of one name the first counts.
-/

namespace WorkflowLens

/-- The names and texts of those children of the nodes called `field` that satisfy `keep` and
have a name. -/
def Tree.collect (t : Tree) (field : String) (keep : Nat → Bool) (name? : Nat → Option String)
    (text : Nat → String) : Dictionary :=
  Dictionary.ofListFirst
    ((((t.nodesWhere Tree.root (t.hasName field)).flatMap t.children).filter keep).filterMap
      fun n => (name? n).map fun name => (name, text n))

namespace Index

/-- What is collected in the document. -/
def collect (ix : Index) (field : String) (keep : Tree → Nat → Bool)
    (name? : Tree → Nat → Option String) (text : Tree → Nat → String) : Dictionary :=
  ix.dictionary fun t => t.collect field (keep t) (name? t) (text t)

/-- The jobs with their display names. -/
def jobs (ix : Index) : Dictionary :=
  ix.collect "jobs" Tree.isJob Tree.name? fun t n => (t.childValue? n "name").getD ""

/-- The ids of the steps of a job, with their names, or else the actions that they use. -/
def steps (ix : Index) (job : Option String) : Dictionary :=
  match ix.stepsOwner? job with
  | none => Dictionary.empty
  | some owner =>
    ix.collect "steps"
      (fun t n => t.isStep n && (t.parent? n).bind t.parent? == some owner)
      (fun t n => t.childValue? n "id")
      fun t n => ((t.childValue? n "name").or (t.childValue? n "uses")).getD ""

/-- The jobs that a job needs, written as one text or as a list. -/
def needs (ix : Index) (job : String) : List String :=
  (ix.inTree? fun t =>
    (ix.job? job).bind fun j => (t.child? j "needs").map fun n =>
      match t.shape n with
      | .scalar => (t.value? n).toList
      | _ => (t.children n).filterMap t.value?).getD []

/-- The inputs with their descriptions: those at the top level of an action, or those of the
triggers of a workflow. -/
def inputs (ix : Index) : Dictionary :=
  ix.collect "inputs"
    (fun t n => (t.parent? n).any fun inputs =>
      match ix.kind with
      | .action => t.isTopLevel inputs
      | _ => ((t.parent? inputs).bind t.parent?).any t.isTriggerRoot)
    Tree.name? Tree.description

/-- The outputs with their descriptions: those at the top level of an action, or those of a
workflow's trigger for calls. -/
def outputs (ix : Index) : Dictionary :=
  ix.collect "outputs"
    (fun t n => (t.parent? n).any fun outputs =>
      match ix.kind with
      | .action => t.isTopLevel outputs
      | _ => t.isWorkflowCallChild outputs)
    Tree.name? Tree.description

/-- The secret that every run has without declaring it. -/
def implicitSecret : String := "GITHUB_TOKEN"

/-- The description of the implicit secret. -/
def implicitSecretDescription : String := "Automatically created token for this workflow run"

/-- The secrets of a workflow's trigger for calls with their descriptions, and the implicit
one. -/
def secrets (ix : Index) : Dictionary :=
  (ix.collect "secrets" (fun t n => (t.parent? n).any t.isWorkflowCallChild) Tree.name?
    Tree.description).insertNew implicitSecret implicitSecretDescription

/-- The environment variables that count at a place, with their values. -/
def envs (ix : Index) (s : Scope) : Dictionary :=
  ix.collect "env" (fun t n => ((t.parent? n).bind t.parent?).any (s.sees t)) Tree.name?
    fun t n => (t.value? n).getD ""

/-- The outputs of a job with their descriptions.  Of two outputs of one name the last counts. -/
def jobOutputs (ix : Index) (job : String) : Dictionary :=
  ix.dictionary fun t =>
    match (ix.job? job).bind fun j => t.child? j "outputs" with
    | some outputs =>
      Dictionary.ofListLast ((t.children outputs).filterMap fun n =>
        (t.name? n).map fun name => (name, t.description n))
    | none => Dictionary.empty

end Index

end WorkflowLens
