import WorkflowLens.Proofs.Document.Partial
import WorkflowLens.Tree.Packing

/-!
# When the spans of a tree can be kept

Packing a tree changes nothing but the spans of its nodes, so every step of navigation stays the
same.  It is a fault exactly if the ends of some span come to stand in the wrong order, and that
takes a text of 2^32 bytes at least, for the offsets in a shorter text lose nothing.

* `Tree.pack_eq_ok_iff`: when there is a packed tree, and which one.
* `Tree.IsLocated.pack_eq`: a tree that is located in a text below the bound is kept as it is.
* `Tree.IsPreorder.packed`: a packed tree has the links of the tree.
-/

namespace WorkflowLens

/-- Going through a list that some elements do not let through. -/
theorem mapM_eq_ok_iff {ε α β : Type} {f : α → Except ε β} {p : α → Prop} {g : α → β}
    (hf : ∀ a b, f a = .ok b ↔ p a ∧ b = g a) {l : List α} {out : List β} :
    l.mapM f = .ok out ↔ (∀ a ∈ l, p a) ∧ out = l.map g := by
  induction l generalizing out with
  | nil => simp [pure, Except.pure, eq_comm]
  | cons a l ih =>
    rw [List.mapM_cons, List.forall_mem_cons, List.map_cons]
    cases ha : f a with
    | error fault =>
      have hnot : ¬ p a := fun hp => by cases ha.symm.trans ((hf a _).mpr ⟨hp, rfl⟩)
      exact ⟨nofun, fun h => absurd h.1.1 hnot⟩
    | ok b =>
      obtain ⟨hp, rfl⟩ := (hf a b).mp ha
      cases hl : l.mapM f with
      | error fault =>
        have hnot : ¬ ∀ a ∈ l, p a := fun hall => by cases hl.symm.trans (ih.mpr ⟨hall, rfl⟩)
        exact ⟨nofun, fun h => absurd h.1.2 hnot⟩
      | ok rest =>
        obtain ⟨hall, rfl⟩ := ih.mp hl
        show Except.ok (g a :: l.map g) = Except.ok out ↔ _
        rw [Except.ok.injEq]
        exact ⟨fun h => ⟨⟨hp, hall⟩, h.symm⟩, fun h => h.2.symm⟩

/-- A list is stopped by what stops one of its elements. -/
theorem exists_of_mapM_eq_error {ε α β : Type} {f : α → Except ε β} {l : List α} {fault : ε}
    (h : l.mapM f = .error fault) : ∃ a ∈ l, f a = .error fault := by
  induction l with
  | nil => cases h
  | cons a l ih =>
    rw [List.mapM_cons] at h
    cases ha : f a with
    | error cause =>
      rw [ha] at h
      cases h
      exact ⟨a, List.mem_cons_self .., ha⟩
    | ok b =>
      rw [ha] at h
      cases hl : l.mapM f with
      | error cause =>
        rw [hl] at h
        cases h
        obtain ⟨a, hmem, ha⟩ := ih hl
        exact ⟨a, List.mem_cons_of_mem _ hmem, ha⟩
      | ok rest =>
        rw [hl] at h
        cases h

/-! ## Spans -/

namespace Span

/-- The ends of the span stay in order when they are packed. -/
def Packs (s : Span) : Prop := Offset.pack s.start ≤ Offset.pack s.stop

/-- The span with packed ends, empty if they are not in order. -/
def packed (s : Span) : Span := upTo (Offset.pack s.start) (Offset.pack s.stop)

variable {s : Span}

theorem pack_eq_ok_iff {kept : Span} : s.pack = .ok kept ↔ s.Packs ∧ kept = s.packed := by
  rw [pack, packed, upTo]
  split
  · next horder => simp [Packs, horder, eq_comm]
  · next horder => simp [Packs, horder]

theorem packs_of_stop_lt (h : s.stop < Offset.bound) : s.Packs := by
  rw [Packs, Offset.pack_of_lt h, Offset.pack_of_lt (Nat.lt_of_le_of_lt s.start_le_stop h)]
  exact s.start_le_stop

theorem exists_of_pack_eq_error {fault : Fault} (h : s.pack = .error fault) :
    ∃ start stop, fault = .span start stop := by
  rw [pack] at h
  split at h
  · cases h
  · exact ⟨_, _, (Except.error.inj h).symm⟩

theorem stop_packed_lt (s : Span) : s.packed.stop < Offset.bound :=
  Nat.max_lt.mpr ⟨Offset.pack_lt s.stop, Offset.pack_lt s.start⟩

/-- A span that ends below the bound is kept as it is. -/
theorem packed_of_stop_lt (h : s.stop < Offset.bound) : s.packed = s := by
  obtain ⟨start, stop, hle⟩ := s
  simp only [packed, Offset.pack_of_lt h, Offset.pack_of_lt (Nat.lt_of_le_of_lt hle h), upTo,
    Nat.max_eq_left hle]

end Span

/-! ## Trees -/

/-- The node with a packed span. -/
def Node.packed (n : Node) : Node := { n with span := n.span.packed }

theorem Node.pack_eq_ok_iff {n kept : Node} :
    n.pack = .ok kept ↔ n.span.Packs ∧ kept = n.packed := by
  rw [Node.pack]
  cases h : n.span.pack with
  | ok s =>
    obtain ⟨horder, rfl⟩ := Span.pack_eq_ok_iff.mp h
    exact ⟨fun hkept => ⟨horder, (Except.ok.inj hkept).symm⟩, fun hkept => hkept.2 ▸ rfl⟩
  | error fault =>
    refine ⟨nofun, fun hkept => ?_⟩
    cases h.symm.trans (Span.pack_eq_ok_iff.mpr ⟨hkept.1, rfl⟩)

theorem Node.exists_of_pack_eq_error {n : Node} {fault : Fault} (h : n.pack = .error fault) :
    ∃ start stop, fault = .span start stop := by
  rw [Node.pack] at h
  cases hspan : n.span.pack with
  | ok s =>
    rw [hspan] at h
    cases h
  | error cause =>
    rw [hspan] at h
    cases h
    exact Span.exists_of_pack_eq_error hspan

namespace Tree

/-- No span of the tree comes to end before it starts when it is packed. -/
def Packs (t : Tree) : Prop := ∀ n < t.size, (t.span n).Packs

/-- The tree with packed spans. -/
def packed (t : Tree) : Tree := ⟨t.nodes.map Node.packed⟩

variable {t : Tree}

@[simp] theorem size_packed (t : Tree) : t.packed.size = t.size := Array.size_map

/-- Packing changes the spans only. -/
theorem node_packed (t : Tree) (n : Nat) : t.packed.node n = (t.node n).packed := by
  rw [node, node, packed, Array.getElem?_map]
  cases t.nodes[n]? <;> rfl

theorem span_packed (t : Tree) (n : Nat) : t.packed.span n = (t.span n).packed :=
  congrArg Node.span (t.node_packed n)

/-- **A tree is kept exactly if no span comes to end before it starts.** -/
theorem pack_eq_ok_iff {kept : Tree} :
    t.pack = .ok kept ↔ t.Packs ∧ kept = t.packed := by
  have hnodes : (∀ n ∈ t.nodes.toList, n.span.Packs) ↔ t.Packs := by
    rw [List.forall_mem_iff_getElem]
    refine forall_congr' fun n => ?_
    constructor
    · intro h hn
      rw [span, node, Array.getElem?_eq_getElem hn]
      exact h hn
    · intro h hn
      have hspan := h hn
      rwa [span, node, Array.getElem?_eq_getElem hn] at hspan
  rw [pack, ← hnodes]
  cases hlist : t.nodes.toList.mapM Node.pack with
  | ok out =>
    obtain ⟨hall, rfl⟩ := (mapM_eq_ok_iff fun _ _ => Node.pack_eq_ok_iff).mp hlist
    have hpacked : Except.ok ⟨(t.nodes.toList.map Node.packed).toArray⟩
        = (Except.ok t.packed : Except Fault Tree) := by
      rw [packed, ← Array.toList_map, Array.toArray_toList]
    exact ⟨fun h => ⟨hall, (Except.ok.inj (hpacked.symm.trans h)).symm⟩,
      fun h => hpacked.trans (congrArg Except.ok h.2.symm)⟩
  | error fault =>
    constructor
    · intro h
      cases h
    · intro h
      cases hlist.symm.trans
        ((mapM_eq_ok_iff fun _ _ => Node.pack_eq_ok_iff).mpr ⟨h.1, rfl⟩)

/-- There is no other fault than a span that would end before it starts. -/
theorem exists_of_pack_eq_error {fault : Fault} (h : t.pack = .error fault) :
    ∃ start stop, fault = .span start stop := by
  rw [pack] at h
  cases hlist : t.nodes.toList.mapM Node.pack with
  | ok out =>
    rw [hlist] at h
    cases h
  | error cause =>
    rw [hlist] at h
    cases h
    obtain ⟨n, -, hn⟩ := exists_of_mapM_eq_error hlist
    exact Node.exists_of_pack_eq_error hn

/-- A packed tree has the links of the tree. -/
theorem IsPreorder.packed (h : t.IsPreorder) : t.packed.IsPreorder := by
  have hlink : ∀ {α : Type} (link : Node → α), (∀ n : Node, link n.packed = link n) →
      ∀ n, link (t.packed.node n) = link (t.node n) := by
    intro α link hkept n
    rw [node_packed, hkept]
  rw [IsPreorder, size_packed]
  exact Forest.congr (hlink Node.parent fun _ => rfl) (hlink Node.index fun _ => rfl)
    (hlink Node.children fun _ => rfl) (hlink Node.stop fun _ => rfl) h

/-- A tree whose spans end below the bound is kept as it is. -/
theorem packed_of_stop_lt (h : ∀ n < t.size, (t.span n).stop < Offset.bound) :
    t.packed = t := by
  obtain ⟨nodes⟩ := t
  have hsame : nodes.map Node.packed = nodes := by
    refine Array.ext (by rw [Array.size_map]) fun n _ hn => ?_
    have hstop := h n hn
    rw [span, node, Array.getElem?_eq_getElem hn] at hstop
    rw [Array.getElem_map, Node.packed]
    exact congrArg (fun s => { nodes[n] with span := s }) (Span.packed_of_stop_lt hstop)
  rw [Tree.packed, hsame]

namespace IsLocated

variable {text : Text} (h : t.IsLocated text) (hsize : text.byteSize < Offset.bound)
include h hsize

theorem stop_span_lt {n : Nat} (hn : n < t.size) : (t.span n).stop < Offset.bound :=
  Nat.lt_of_le_of_lt (Text.le_byteSize_of_isBoundary (h.spansIn n hn).2) hsize

theorem packs : t.Packs := fun _ hn => Span.packs_of_stop_lt (h.stop_span_lt hsize hn)

theorem packed_eq : t.packed = t := packed_of_stop_lt fun _ hn => h.stop_span_lt hsize hn

/-- **A tree that is located in a text below the bound is kept as it is.** -/
theorem pack_eq : t.pack = .ok t :=
  pack_eq_ok_iff.mpr ⟨h.packs hsize, (h.packed_eq hsize).symm⟩

end IsLocated

end Tree

end WorkflowLens
