import WorkflowLens.Fault
import WorkflowLens.Tree.Basic

/-!
# Offsets in 32 bits

Offsets are kept in 32 bits.  This is enough for a document, which may not be longer.  But a
document that is completed before it is decoded may become longer, and a file that somebody else
serves may have any length.  Then the offsets of nodes lose what does not fit, and a span may turn
out to end before it starts, which is a fault.

* `Offset.pack`: what is kept of an offset.
* `Span.pack`, `Tree.pack`: spans and trees as they are kept.
-/

namespace WorkflowLens

namespace Offset

/-- The first number that is too large for an offset, 2^32. -/
def bound : Nat := 0x100000000

/-- The last 32 bits of a number. -/
def pack (n : Nat) : Nat := n % bound

theorem pack_of_lt {n : Nat} (h : n < bound) : pack n = n := Nat.mod_eq_of_lt h

theorem pack_lt (n : Nat) : pack n < bound := Nat.mod_lt n (by decide)

end Offset

/-- The span as it is kept, if it still ends after it starts. -/
def Span.pack (s : Span) : Except Fault Span :=
  if h : Offset.pack s.start ≤ Offset.pack s.stop then .ok ⟨_, _, h⟩
  else .error (.span (Offset.pack s.start) (Offset.pack s.stop))

/-- The node as it is kept. -/
def Node.pack (n : Node) : Except Fault Node := do
  return { n with span := ← n.span.pack }

/-- The tree as it is kept. -/
def Tree.pack (t : Tree) : Except Fault Tree := do
  return ⟨(← t.nodes.toList.mapM Node.pack).toArray⟩

end WorkflowLens
