import WorkflowLens.Text.Quoted
import WorkflowLens.Tree.Basic

/-!
# Summaries of nodes

A node on one line, for logs: its key, its text, the number of its children and its span.
-/

namespace WorkflowLens

/-- A text that may be missing. -/
def optionalSummary : Option String → Text
  | some text => "Some(".toList ++ Text.quoted text.toList ++ [')']
  | none => "None".toList

/-- The ends of a span, with two dots between. -/
def Span.summary (s : Span) : Text :=
  Nat.toDigits 10 s.start ++ ['.', '.'] ++ Nat.toDigits 10 s.stop

/-- A node on one line. -/
def Tree.summary (t : Tree) (n : Nat) : Text :=
  "YamlNode \x7b name: ".toList ++ optionalSummary (t.name? n)
    ++ ", value: ".toList ++ optionalSummary (t.value? n)
    ++ ", children: ".toList ++ Nat.toDigits 10 (t.children n).length
    ++ ", range: ".toList ++ (t.span n).summary ++ " \x7d".toList

end WorkflowLens
