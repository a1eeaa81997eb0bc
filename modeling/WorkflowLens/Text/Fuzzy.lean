import WorkflowLens.Text.Lowercase

/-!
# Fuzzy matching

A typed prefix keeps a candidate when, both in lower case, its characters occur in the candidate
in this order and its first character is the candidate's first.  An empty prefix keeps
everything.
-/

namespace WorkflowLens.Text

/-- Whether `wanted` is a subsequence of `available` that begins at its first character, or
empty. -/
def isAnchoredSubsequence : (wanted available : Text) → Bool
  | [], _ => true
  | _ :: _, [] => false
  | w :: wanted, a :: available => w == a && wanted.isSublist available

/-- Whether the candidate is kept for the typed prefix. -/
def fuzzyMatches (typed candidate : Text) : Bool :=
  isAnchoredSubsequence typed.lower candidate.lower

end WorkflowLens.Text
