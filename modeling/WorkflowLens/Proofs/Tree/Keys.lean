import Mathlib.Data.List.Pairwise
import Mathlib.Order.Bounds.Basic
import WorkflowLens.Proofs.Tree.Locations
import WorkflowLens.Proofs.Tree.Links
import WorkflowLens.Proofs.Tree.Names

/-!
# Trees without repeated keys

Two keys of a mapping may be different and still have the same text, as `1` and `'1'` do.  In a
tree where this does not happen a step leads from a node to one child at most: a name to the child
with that name, and a place to the child at that place.  So a location leads to one node at most.

* `Tree.HasDistinctKeys`: no mapping has two keys of the same text.
* `Tree.IsFirstNamed`: the first child with a key, which is what looking the key up finds.
* `IsPreorder.child?_eq_some_iff`: without repeated keys it is the child with that name.
* `IsPreorder.eq_of_location_eq`: a location leads to one node.
-/

namespace WorkflowLens.Tree

/-- No node has two children of one name. -/
def HasDistinctKeys (t : Tree) : Prop :=
  ∀ p < t.size, ((t.children p).filterMap t.name?).Nodup

instance (t : Tree) : Decidable t.HasDistinctKeys :=
  inferInstanceAs (Decidable (∀ p < t.size, _))

/-- A node is the first child of another one with a certain key. -/
def IsFirstNamed (t : Tree) (p : Nat) (name : String) (c : Nat) : Prop :=
  IsLeast {c | t.parent? c = some p ∧ t.name? c = some name} c

/-! ## The first one in a list of numbers -/

section find?

variable {p : Nat → Bool} {l : List Nat} (hl : l.Pairwise (· < ·)) {n : Nat}
include hl

theorem isLeast_of_find?_eq_some (hfound : l.find? p = some n) :
    IsLeast {m | m ∈ l ∧ p m = true} n := by
  obtain ⟨hn, before, after, rfl, hbefore⟩ := List.find?_eq_some_iff_append.mp hfound
  refine ⟨⟨List.mem_append_right _ (List.mem_cons_self ..), hn⟩, ?_⟩
  rintro m ⟨hm, hpm⟩
  rcases List.mem_append.mp hm with hm | hm
  · have hno := hbefore m hm
    rw [hpm] at hno
    cases hno
  · rcases List.mem_cons.mp hm with rfl | hm
    · exact Nat.le_refl m
    · exact Nat.le_of_lt (List.rel_of_pairwise_cons (List.pairwise_append.mp hl).2.1 hm)

/-- In an increasing list the first number that is looked for is the least one. -/
theorem find?_eq_some_iff_isLeast :
    l.find? p = some n ↔ IsLeast {m | m ∈ l ∧ p m = true} n := by
  refine ⟨isLeast_of_find?_eq_some hl, fun hleast => ?_⟩
  have hsome : (l.find? p).isSome := List.find?_isSome.mpr ⟨n, hleast.1⟩
  obtain ⟨k, hk⟩ := Option.isSome_iff_exists.mp hsome
  rw [hk, (isLeast_of_find?_eq_some hl hk).unique hleast]

end find?

variable {t : Tree}

namespace IsPreorder

variable (h : t.IsPreorder)
include h

/-- A child stands at its place among the children. -/
theorem getElem?_children_index {n p : Nat} (hp : t.parent? n = some p) :
    (t.children p)[t.index n]? = some n := by
  obtain ⟨i, hi, hn⟩ := List.getElem_of_mem (h.of_parent hp).2.1
  have hplace : (t.children p)[i]? = some n := List.getElem?_eq_some_iff.mpr ⟨hi, hn⟩
  rw [h.linksAgree.index_eq p (h.parent_lt_size hp) i n hplace]
  exact hplace

theorem child?_eq_some_iff_isFirstNamed {p c : Nat} (hp : p < t.size) {name : String} :
    t.child? p name = some c ↔ t.IsFirstNamed p name c := by
  rw [child?, find?_eq_some_iff_isLeast (h.pairwise_lt_children hp)]
  simp only [h.mem_children_iff hp, hasName_iff]
  rfl

variable (hkeys : t.HasDistinctKeys)
include hkeys

theorem eq_of_name?_eq {n m p : Nat} {name : String} (hn : t.parent? n = some p)
    (hm : t.parent? m = some p) (hnname : t.name? n = some name) (hmname : t.name? m = some name) :
    n = m := by
  have hpairs := List.pairwise_filterMap.mp (hkeys p (h.parent_lt_size hn))
  have hsymm : Std.Symm fun a b => ∀ x, t.name? a = some x → ∀ y, t.name? b = some y → x ≠ y :=
    ⟨fun _ _ hab x hx y hy heq => hab y hy x hx heq.symm⟩
  by_contra hne
  exact hpairs.forall (h.of_parent hn).2.1 (h.of_parent hm).2.1 hne name hnname name hmname rfl

theorem isFirstNamed_iff {p c : Nat} {name : String} :
    t.IsFirstNamed p name c ↔ t.parent? c = some p ∧ t.name? c = some name := by
  refine ⟨And.left, fun hc => ⟨hc, fun d hd => ?_⟩⟩
  exact Nat.le_of_eq (h.eq_of_name?_eq hkeys hc.1 hd.1 hc.2 hd.2)

/-- Looking a key up finds the child with that name. -/
theorem child?_eq_some_iff {p c : Nat} {name : String} (hp : p < t.size) :
    t.child? p name = some c ↔ t.parent? c = some p ∧ t.name? c = some name := by
  rw [h.child?_eq_some_iff_isFirstNamed hp, h.isFirstNamed_iff hkeys]

/-- **A location leads to one node.** -/
theorem eq_of_location_eq {n m : Nat} (hn : n < t.size) (hm : m < t.size)
    (hl : t.location n = t.location m) : n = m := by
  induction n using Nat.strongRecOn generalizing m with
  | ind n ih =>
    by_cases hroot : n = root
    · subst hroot
      rw [h.location_root] at hl
      exact ((h.location_eq_nil_iff hm).mp hl.symm).symm
    · obtain ⟨p, hp, hlt, -⟩ := h.exists_parent hn hroot
      rw [h.location_of_parent hp, eq_comm, h.location_eq_append_iff hm] at hl
      obtain ⟨q, hq, hup, hstep⟩ := hl
      obtain rfl := ih p hlt (h.parent_lt_size hp) (h.parent_lt_size hq) hup.symm
      cases hname : t.name? n with
      | some name =>
        rw [step_eq_key_iff.mpr hname, step_eq_key_iff] at hstep
        exact h.eq_of_name?_eq hkeys hp hq hname hstep
      | none =>
        rw [step_eq_item_iff.mpr ⟨hname, rfl⟩, step_eq_item_iff] at hstep
        have hplace := h.getElem?_children_index hq
        rw [hstep.2, h.getElem?_children_index hp, Option.some.injEq] at hplace
        exact hplace

end IsPreorder

/-! ## Leaves -/

mutual

/-- Of the nodes of an outline only those without children have a text. -/
theorem isLeaf_of_mem_nodes {number : Nat} {parent : Option Nat} {name : Option String}
    {index : Nat} {n : Node} : ∀ o : Outline, n ∈ o.nodes number parent name index →
    n.value ≠ none → n.shape = .scalar ∧ n.children = []
  | .scalar text, hn, _ => by
    rw [Outline.nodes, List.mem_singleton] at hn
    rw [hn]
    exact ⟨rfl, rfl⟩
  | .collection kind children, hn, hvalue => by
    rw [Outline.nodes] at hn
    rcases List.mem_cons.mp hn with rfl | hn
    · exact absurd rfl hvalue
    · exact isLeaf_of_mem_childNodes children hn hvalue

theorem isLeaf_of_mem_childNodes {number parent index : Nat} {n : Node} :
    ∀ children : List (Option String × Outline),
    n ∈ Outline.childNodes number parent index children →
    n.value ≠ none → n.shape = .scalar ∧ n.children = []
  | [], hn, _ => by
    rw [Outline.childNodes] at hn
    cases hn
  | (name, o) :: children, hn, hvalue => by
    rw [Outline.childNodes] at hn
    rcases List.mem_append.mp hn with hn | hn
    · exact isLeaf_of_mem_nodes o hn hvalue
    · exact isLeaf_of_mem_childNodes children hn hvalue

end

/-- A node with a text is a scalar, and nothing is below it. -/
theorem IsLocated.isLeaf_of_value? {text : Text} (h : t.IsLocated text) {n : Nat}
    (hvalue : t.value? n ≠ none) :
    t.shape n = .scalar ∧ t.children n = [] ∧ t.stop n = n + 1 := by
  have hn : n < t.size := by
    by_contra hge
    rw [value?, node_eq_absent (Nat.le_of_not_lt hge)] at hvalue
    exact hvalue rfl
  have hinner := h.isPreorder.forest_children hn
  obtain ⟨v, o, -, rfl⟩ := h.exists_eq_withStarts
  rw [size_withStarts] at hn
  rw [children_withStarts, stop_withStarts] at hinner
  rw [value?_withStarts] at hvalue
  rw [shape_withStarts, children_withStarts, stop_withStarts]
  have hmem : (ofOutline o).node n ∈ o.nodes root none none 0 := by
    have hlt : n < (o.nodes 0 none none 0).length := hn
    rw [node, ofOutline, List.getElem?_toArray, List.getElem?_eq_getElem hlt, Option.getD_some]
    exact List.getElem_mem hlt
  obtain ⟨hshape, hchildren⟩ := isLeaf_of_mem_nodes o hmem hvalue
  have hnil : (ofOutline o).children n = [] := hchildren
  rw [hnil] at hinner
  exact ⟨hshape, hnil, hinner.stop_eq_of_nil.symm⟩

end WorkflowLens.Tree
