import WorkflowLens.Dictionary

/-!
# Contexts of expressions

The first word of a path in an expression names a context, and the context says what the other
words mean.

* `Context.ofSegment`: the context of a first word.
* `contextNames`, `githubFields`: the names of contexts, and of the fields of `github`, with
  descriptions.
-/

namespace WorkflowLens

/-- The context that a path begins with. -/
inductive Context where
  | steps | jobs | env | github | inputs | secrets | needs
  /-- A context of which nothing is known, or none. -/
  | other
  deriving DecidableEq, Repr

namespace Context

/-- The context of a first word. -/
def ofSegment (word : String) : Context :=
  if word = "steps" then .steps
  else if word = "jobs" then .jobs
  else if word = "env" then .env
  else if word = "github" then .github
  else if word = "inputs" then .inputs
  else if word = "secrets" then .secrets
  else if word = "needs" then .needs
  else .other

/-- The context of a path's words. -/
def ofSegments (segments : List String) : Context :=
  match segments with
  | [] => .other
  | first :: _ => ofSegment first

/-- Whether the second word of a path names something that has outputs. -/
def hasOutputs : Context → Bool
  | .jobs | .needs | .steps => true
  | _ => false

end Context

/-- The names of contexts with their descriptions. -/
def contextNames : List (String × String) := [
  ("github", "Information about the workflow run"),
  ("env", "Variables set in the workflow, job or step"),
  ("vars", "Configuration variables of the repository, environment or organization"),
  ("job", "Information about the currently running job"),
  ("jobs", "Outputs of the jobs of a reusable workflow"),
  ("steps", "Information about the steps of the current job that have run"),
  ("runner", "Information about the runner executing the job"),
  ("secrets", "Secrets available to the workflow run"),
  ("strategy", "Matrix execution strategy of the current job"),
  ("matrix", "Matrix properties of the current job"),
  ("needs", "Outputs of the jobs the current job depends on"),
  ("inputs", "Inputs of a reusable or manually triggered workflow")]

/-- The description of a context, empty if there is none. -/
def contextDescription (name : String) : String := (contextNames.lookup name).getD ""

/-- The fields of the context `github` with their descriptions. -/
def githubFields : List (String × String) := [
  ("action", "Name of the running action, or the id of the step"),
  ("action_path", "Path where the running action is located"),
  ("action_ref", "Ref of the running action"),
  ("action_repository", "Owner and repository name of the running action"),
  ("action_status", "Result of a composite action"),
  ("actor", "Username of the user that triggered the initial run"),
  ("actor_id", "Account id of the user that triggered the initial run"),
  ("api_url", "URL of the REST API"),
  ("base_ref", "Target branch of a pull request"),
  ("env", "Path of the file that sets environment variables from commands"),
  ("event", "Full event webhook payload"),
  ("event_name", "Name of the event that triggered the run"),
  ("event_path", "Path of the file with the full event webhook payload"),
  ("graphql_url", "URL of the GraphQL API"),
  ("head_ref", "Source branch of a pull request"),
  ("job", "Id of the current job"),
  ("output", "Path of the file that sets step outputs from commands"),
  ("path", "Path of the file that sets PATH from commands"),
  ("ref", "Fully-formed ref of the branch or tag that triggered the run"),
  ("ref_name", "Short ref name of the branch or tag that triggered the run"),
  ("ref_protected", "Whether branch protections are configured for the ref"),
  ("ref_type", "Type of ref that triggered the run: branch or tag"),
  ("repository", "Owner and repository name"),
  ("repository_id", "Id of the repository"),
  ("repository_owner", "Owner of the repository"),
  ("repository_owner_id", "Account id of the repository owner"),
  ("repositoryUrl", "Git URL of the repository"),
  ("retention_days", "Days that logs and artifacts are kept"),
  ("run_id", "Unique number of each workflow run"),
  ("run_number", "Number of each run of this workflow"),
  ("run_attempt", "Attempt number of this run"),
  ("secret_source", "Source of the secrets used by the run"),
  ("server_url", "URL of the GitHub server"),
  ("sha", "Commit SHA that triggered the run"),
  ("token", "Token to authenticate on behalf of the installed app"),
  ("triggering_actor", "Username of the user that initiated the run"),
  ("workflow", "Name of the workflow"),
  ("workflow_ref", "Ref path of the workflow"),
  ("workflow_sha", "Commit SHA of the workflow file"),
  ("workspace", "Default working directory on the runner")]

end WorkflowLens
