import WorkflowLens.Text.Basic

/-!
# Faults

Most of what can go wrong has an answer: a text that is no document has no tree, and an action
whose definition cannot be had has no inputs and outputs.  A fault has none, and what was being
done stops where it happens.
-/

namespace WorkflowLens

/-- Why something stops without an answer. -/
inductive Fault where
  /-- A text would be cut where it has no boundary. -/
  | cut (fault : CutFault)
  /-- A text is longer than offsets can say. -/
  | long (size : Nat)
  /-- A span would end before it starts. -/
  | span (start stop : Nat)
  /-- A time so many seconds after another one would come after the last one. -/
  | time (now seconds : Nat)
  deriving DecidableEq, Repr

end WorkflowLens
