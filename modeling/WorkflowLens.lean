import WorkflowLens.Action.ProjectFiles
import WorkflowLens.Action.Session
import WorkflowLens.Completion.Link
import WorkflowLens.Completion.Suggestions
import WorkflowLens.Proofs.Action.Calls
import WorkflowLens.Proofs.Action.Eviction
import WorkflowLens.Proofs.Action.Folders
import WorkflowLens.Proofs.Action.Kinds
import WorkflowLens.Proofs.Action.Outcomes
import WorkflowLens.Proofs.Action.References
import WorkflowLens.Proofs.Action.Segments
import WorkflowLens.Proofs.Action.StorageKeys
import WorkflowLens.Proofs.Action.WrittenForm
import WorkflowLens.Proofs.Completion.Answers
import WorkflowLens.Proofs.Completion.Inputs
import WorkflowLens.Proofs.Completion.Labels
import WorkflowLens.Proofs.Completion.Paths
import WorkflowLens.Proofs.Completion.Safety
import WorkflowLens.Proofs.Document.Partial
import WorkflowLens.Proofs.Expression.Caret
import WorkflowLens.Proofs.Expression.Closing
import WorkflowLens.Proofs.Expression.LongestMatch
import WorkflowLens.Proofs.Expression.Tokens
import WorkflowLens.Proofs.Index.Collect
import WorkflowLens.Proofs.Index.Counterparts
import WorkflowLens.Proofs.Index.Environment
import WorkflowLens.Proofs.Index.Inputs
import WorkflowLens.Proofs.Index.Lookup
import WorkflowLens.Proofs.Index.Scopes
import WorkflowLens.Proofs.Layout.Line
import WorkflowLens.Proofs.Layout.Mapping
import WorkflowLens.Proofs.Layout.Sequence
import WorkflowLens.Proofs.Text.Lines
import WorkflowLens.Proofs.Text.Occurrences
import WorkflowLens.Proofs.Text.Pieces
import WorkflowLens.Proofs.Text.Places
import WorkflowLens.Proofs.Text.Positions
import WorkflowLens.Proofs.Tree.Anchors
import WorkflowLens.Proofs.Tree.Comments
import WorkflowLens.Proofs.Tree.Keys
import WorkflowLens.Proofs.Tree.Links
import WorkflowLens.Proofs.Tree.Names
import WorkflowLens.Proofs.Tree.Preorder
import WorkflowLens.Proofs.Tree.ReadBack
import WorkflowLens.Proofs.Tree.Spans
import WorkflowLens.Proofs.Tree.Walk
import WorkflowLens.Text.Position
import WorkflowLens.Tree.Summary
import WorkflowLens.Proofs.Action.AskingOrder
import WorkflowLens.Proofs.Index.Interface
import WorkflowLens.Proofs.Tree.Comparison
import WorkflowLens.Proofs.Expression.Quotes
import WorkflowLens.Proofs.Expression.WrittenPaths
import WorkflowLens.Proofs.Index.Placement
import WorkflowLens.Proofs.Tree.Subtrees
import WorkflowLens.Proofs.Text.CaretLines
import WorkflowLens.Proofs.Text.LineEnds
import WorkflowLens.Proofs.Completion.Matching
import WorkflowLens.Proofs.Completion.Independence
import WorkflowLens.Proofs.Index.Commands
import WorkflowLens.Proofs.Index.Scripts
import WorkflowLens.Proofs.Completion.Faults
import WorkflowLens.Proofs.Completion.Links
import WorkflowLens.Proofs.Index.DocumentOrder
import WorkflowLens.Proofs.Index.StepInputs
import WorkflowLens.Proofs.Index.Redirections
import WorkflowLens.Proofs.Document.Nesting
import WorkflowLens.Proofs.Document.QuotedValues
import WorkflowLens.Proofs.Action.ProjectPaths
import WorkflowLens.Proofs.Action.RequestAddresses
