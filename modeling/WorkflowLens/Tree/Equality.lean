import WorkflowLens.Text.Search
import WorkflowLens.Tree.Basic

/-!
# Equality of nodes

Two nodes are equal when their subtrees, walked in pre-order, run in step: at each place the same
key, the same number of children, and matching values.  The numbers of children fix the form of
a subtree, so nothing more has to be compared.

Values match when they are the same, or when both are there and one begins with the other, so
that a value that is still being typed matches its finished form.
-/

namespace WorkflowLens

/-- Whether one of two texts begins with the other and neither is empty, or they are the same. -/
def textsMatch (a b : String) : Bool :=
  a == b || (!a.isEmpty && !b.isEmpty
    && (Text.startsWith b.toList a.toList || Text.startsWith a.toList b.toList))

/-- Whether the values of two nodes match. -/
def valuesMatch : Option String → Option String → Bool
  | some a, some b => textsMatch a b
  | none, none => true
  | _, _ => false

/-- Whether two nodes agree apart from their descendants. -/
def Node.agrees (a b : Node) : Bool :=
  a.name == b.name && valuesMatch a.value b.value && a.children.length == b.children.length

namespace Tree

/-- The node and its descendants in pre-order. -/
def subtree (t : Tree) (n : Nat) : List Node :=
  (List.range' n (t.stop n - n)).map t.node

/-- Whether two lists have the same length and agree place by place. -/
def runInStep (agree : Node → Node → Bool) : List Node → List Node → Bool
  | [], [] => true
  | a :: as, b :: bs => agree a b && runInStep agree as bs
  | _, _ => false

/-- Whether node `n` of one tree equals node `m` of another. -/
def equal (t : Tree) (n : Nat) (u : Tree) (m : Nat) : Bool :=
  runInStep Node.agrees (t.subtree n) (u.subtree m)

end Tree

end WorkflowLens
