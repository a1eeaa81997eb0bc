import Mathlib.Data.List.Sort
import WorkflowLens.Proofs.Tree.Preorder

/-!
# The links of a tree agree

A node knows its parent, its children, its place and where its subtree ends, and each of the four
could be computed from the others.  `Tree.LinksAgree` says that they are: whichever of them a
query follows, it sees the same tree.

The condition is stated through a depth-first walk along the children, so it does not assume that
the numbers are in order.  For a tree in pre-order a walk from a node meets the numbers from the
node to its `stop`, by an induction on forests, and the rest follows from that.

* `Tree.walk`: the nodes of a subtree in the order of a walk along the children.
* `Forest.flatMap_walkIn`, `IsPreorder.walk_eq`: a walk meets the nodes by number.
* `IsPreorder.children_eq_filter`: the children are the nodes with that parent, in order.
* `IsPreorder.linksAgree`: the links of a tree in pre-order agree.
-/

namespace WorkflowLens.Tree

/-! ## The walk along the children -/

/-- The nodes on a walk from a node along its children, which goes at most `depth` deep. -/
def walkIn (t : Tree) : (depth : Nat) → Nat → List Nat
  | 0, _ => []
  | depth + 1, n => n :: (t.children n).flatMap (t.walkIn depth)

/-- The subtree of a node, in the order of a depth-first walk along the children.  A subtree is no
deeper than the tree has nodes. -/
def walk (t : Tree) (n : Nat) : List Nat := t.walkIn t.size n

/-- The links of the nodes say the same: nodes are numbered in the order of the walk, a parent
before its children; the children of a node are the nodes that have it as parent, in order, and
know their places; and a subtree ends where its walk does. -/
structure LinksAgree (t : Tree) : Prop where
  walk_root : t.walk root = List.range t.size
  parent_lt : ∀ n p, t.parent? n = some p → p < n
  children_eq : ∀ n < t.size,
    t.children n = (List.range t.size).filter fun m => t.parent? m == some n
  index_eq : ∀ n < t.size, ∀ i c, (t.children n)[i]? = some c → t.index c = i
  stop_eq : ∀ n < t.size, t.stop n = n + (t.walk n).length

variable {t : Tree}

/-- A walk from the tops of a forest meets its nodes by number. -/
theorem Forest.flatMap_walkIn {first : Nat} {parent : Option Nat} {index : Nat}
    {roots : List Nat} {stop : Nat} (h : Forest t first parent index roots stop) :
    ∀ depth, stop ≤ first + depth →
      roots.flatMap (t.walkIn depth) = List.range' first (stop - first) := by
  induction h with
  | nil =>
    intro depth _
    rw [List.flatMap_nil, Nat.sub_self, List.range'_zero]
  | @cons first parent index roots stop _ _ inside after ihInside ihAfter =>
    intro depth hdepth
    have hin := inside.first_le
    have hout := after.first_le
    obtain ⟨d, rfl⟩ : ∃ d, depth = d + 1 := ⟨depth - 1, by omega⟩
    have hsubtree : t.walkIn (d + 1) first = List.range' first (t.stop first - first) := by
      rw [walkIn, ihInside d (by omega), ← List.range'_succ]
      congr 1
      omega
    rw [List.flatMap_cons, hsubtree, ihAfter (d + 1) (by omega)]
    have happend := List.range'_append_1 (s := first) (m := t.stop first - first)
      (n := stop - t.stop first)
    rw [show first + (t.stop first - first) = t.stop first by omega] at happend
    rw [happend]
    congr 1
    omega

/-- The tops of a forest know their places. -/
theorem Forest.index_eq_of_getElem? {first : Nat} {parent : Option Nat} {index : Nat}
    {roots : List Nat} {stop : Nat} (h : Forest t first parent index roots stop) :
    ∀ i c, roots[i]? = some c → t.index c = index + i := by
  induction h with
  | nil => simp
  | cons _ index_eq _ _ _ ihAfter =>
    intro i c hc
    cases i with
    | zero =>
      cases hc
      exact index_eq
    | succ i =>
      rw [ihAfter i c hc]
      omega

/-- Each top of a forest begins where the one before it ends. -/
theorem Forest.getElem?_roots {first : Nat} {parent : Option Nat} {index : Nat}
    {roots : List Nat} {stop : Nat} (h : Forest t first parent index roots stop) :
    (∀ n, roots[0]? = some n → n = first) ∧
      (∀ i n m, roots[i]? = some n → roots[i + 1]? = some m → m = t.stop n) ∧
      ∀ i n, roots[i]? = some n → i + 1 = roots.length → t.stop n = stop := by
  induction h with
  | nil => simp
  | @cons first _ _ _ _ _ _ _ after _ ihAfter =>
    obtain ⟨ihFirst, ihNext, ihLast⟩ := ihAfter
    refine ⟨fun n hn => ?_, fun i n m hn hm => ?_, fun i n hn hlast => ?_⟩
    · cases hn
      rfl
    · cases i with
      | zero =>
        cases hn
        exact ihFirst m hm
      | succ i => exact ihNext i n m hn hm
    · cases i with
      | zero =>
        cases hn
        rw [List.length_cons] at hlast
        have hnil := List.length_eq_zero_iff.mp (Nat.succ.inj hlast).symm
        subst hnil
        cases after
        rfl
      | succ i => exact ihLast i n hn (Nat.succ.inj hlast)

/-- A forest without tops has no nodes. -/
theorem Forest.stop_eq_of_nil {first : Nat} {parent : Option Nat} {index stop : Nat}
    (h : Forest t first parent index [] stop) : first = stop := by
  cases h with
  | nil => rfl

namespace IsPreorder

variable (h : t.IsPreorder)
include h

/-- The walk from a node meets its descendants by number. -/
theorem walk_eq {n : Nat} (hn : n < t.size) :
    t.walk n = List.range' n (t.stop n - n) := by
  have hlt := h.lt_stop hn
  have hle := h.stop_le_size hn
  obtain ⟨count, hcount⟩ : ∃ count, t.size = count + 1 := ⟨t.size - 1, by omega⟩
  have hinside := (h.forest_children hn).flatMap_walkIn count (by omega)
  rw [walk, hcount, walkIn, hinside, ← List.range'_succ]
  congr 1
  omega

theorem stop_root : t.stop root = t.size := by
  cases h with
  | cons _ _ _ after => exact after.stop_eq_of_nil

/-- The children of a node are the nodes that have it as parent, in order. -/
theorem children_eq_filter {n : Nat} (hn : n < t.size) :
    t.children n = (List.range t.size).filter fun m => t.parent? m == some n := by
  have hinOrder : (t.children n).Pairwise (· < ·) := by
    refine (h.pairwise_children hn).imp_of_mem fun {a b} ha _ hab => ?_
    have hlt := h.lt_stop (lt_size_of_parent ((h.mem_children_iff hn).mp ha))
    omega
  have hfilter : ((List.range t.size).filter fun m => t.parent? m == some n).Pairwise (· < ·) :=
    List.Pairwise.filter _ List.pairwise_lt_range
  refine hinOrder.eq_of_mem_iff hfilter fun m => ?_
  rw [h.mem_children_iff hn, List.mem_filter, List.mem_range, beq_iff_eq]
  exact ⟨fun hm => ⟨lt_size_of_parent hm, hm⟩, fun hm => hm.2⟩

theorem pairwise_lt_children {n : Nat} (hn : n < t.size) : (t.children n).Pairwise (· < ·) := by
  rw [h.children_eq_filter hn]
  exact List.Pairwise.filter _ List.pairwise_lt_range

/-- **The links of a tree in pre-order agree.** -/
theorem linksAgree : t.LinksAgree where
  walk_root := by
    have hwalk : t.walk root = List.range' 0 (t.stop root) := h.walk_eq h.size_pos
    rw [hwalk, h.stop_root, List.range_eq_range']
  parent_lt := fun _ _ => h.parent_lt
  children_eq := fun _ => h.children_eq_filter
  index_eq := by
    intro n hn i c hc
    rw [(h.forest_children hn).index_eq_of_getElem? i c hc, Nat.zero_add]
  stop_eq := by
    intro n hn
    have hlt := h.lt_stop hn
    rw [h.walk_eq hn, List.length_range']
    omega

end IsPreorder

end WorkflowLens.Tree
