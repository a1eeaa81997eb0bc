/-!
# Spans

Half-open ranges of byte offsets.  A span never ends before it starts.
-/

namespace WorkflowLens

/-- The byte offsets from `start` up to, but not including, `stop`. -/
structure Span where
  start : Nat
  stop : Nat
  start_le_stop : start ≤ stop := by omega
  deriving DecidableEq, Repr

namespace Span

/-- The empty span at the start of a text. -/
def zero : Span := ⟨0, 0, Nat.le_refl 0⟩

instance : Inhabited Span := ⟨zero⟩

/-- The span of `size` bytes from `start`. -/
def ofSize (start size : Nat) : Span :=
  ⟨start, start + size, Nat.le_add_right start size⟩

/-- The span from `start` to `stop`, empty if `stop` comes first. -/
def upTo (start stop : Nat) : Span :=
  ⟨start, max stop start, Nat.le_max_right stop start⟩

/-- The span moved on by `distance` bytes. -/
def shift (s : Span) (distance : Nat) : Span :=
  ⟨s.start + distance, s.stop + distance, Nat.add_le_add_right s.start_le_stop distance⟩

/-- Whether an offset lies in the span. -/
def Contains (s : Span) (offset : Nat) : Prop :=
  s.start ≤ offset ∧ offset < s.stop

instance (s : Span) (offset : Nat) : Decidable (s.Contains offset) :=
  inferInstanceAs (Decidable (_ ∧ _))

end Span

end WorkflowLens
