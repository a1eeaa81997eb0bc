import Mathlib.Data.List.Basic
import Mathlib.Order.Basic
import WorkflowLens.Tree.Basic

/-!
# The nesting of a tree by its numbers

A tree is a list of nodes with links between them, and nothing in its type says that the links
fit together.  `Forest t first parent index roots stop` says that they do for the nodes from
`first` up to `stop`: these nodes are some trees side by side, in pre-order, with the numbers
`roots` at their tops.  The whole tree is one such forest, which is `Tree.IsPreorder`.

Everything about nesting is then an induction on forests, and it never looks at the list of nodes
again.

* `isPreorder_ofOutline`: the tree of an outline is in pre-order.
* `IsPreorder.parent_lt`, `IsPreorder.stop_le_stop_of_parent`: a node lies inside its parent.
* `IsPreorder.mem_ancestorsOrSelf_iff`: the ancestors of `m` are the nodes `n` with
  `n ≤ m < t.stop n`.
* `IsPreorder.pairwise_children`: a child ends before the next one begins.
* `Forest.congr`: trees with the same links are in pre-order together.
-/

namespace WorkflowLens

namespace Tree

/-- The nodes from `first` up to `stop` are trees side by side in pre-order: `roots` are the
numbers of their tops, all of which have the given parent, and the first of which has the place
`index` among its siblings. -/
inductive Forest (t : Tree) : (first : Nat) → (parent : Option Nat) → (index : Nat) →
    (roots : List Nat) → (stop : Nat) → Prop
  | nil {first : Nat} {parent : Option Nat} {index : Nat} : Forest t first parent index [] first
  | cons {first : Nat} {parent : Option Nat} {index : Nat} {roots : List Nat} {stop : Nat}
      (parent_eq : t.parent? first = parent) (index_eq : t.index first = index)
      (inside : Forest t (first + 1) (some first) 0 (t.children first) (t.stop first))
      (after : Forest t (t.stop first) parent (index + 1) roots stop) :
      Forest t first parent index (first :: roots) stop

/-- The nodes of the tree are in pre-order below the root, and their links say so. -/
def IsPreorder (t : Tree) : Prop := Forest t root none 0 [root] t.size

/-! ## Forests -/

namespace Forest

variable {t : Tree} {first : Nat} {parent : Option Nat} {index : Nat} {roots : List Nat}
  {stop : Nat}

theorem first_le (h : Forest t first parent index roots stop) : first ≤ stop := by
  induction h with
  | nil => exact Nat.le_refl _
  | cons _ _ _ _ inside after => omega

/-- A node of a forest comes before the end of its descendants, which is in the forest. -/
theorem stop_bounds (h : Forest t first parent index roots stop) {n : Nat} (hfirst : first ≤ n)
    (hstop : n < stop) : n < t.stop n ∧ t.stop n ≤ stop := by
  induction h with
  | nil => omega
  | @cons first _ _ _ _ _ _ inside after ihInside ihAfter =>
    have hin := inside.first_le
    have hout := after.first_le
    rcases Nat.lt_or_ge n (t.stop first) with hlt | hge
    · rcases Nat.eq_or_lt_of_le hfirst with rfl | hne
      · exact ⟨hin, hout⟩
      · have hn := ihInside hne hlt
        exact ⟨hn.1, Nat.le_trans hn.2 hout⟩
    · exact ihAfter hge hstop

/-- The descendants of a node of a forest are a forest, and its children are the tops. -/
theorem inner (h : Forest t first parent index roots stop) {n : Nat} (hfirst : first ≤ n)
    (hstop : n < stop) : Forest t (n + 1) (some n) 0 (t.children n) (t.stop n) := by
  induction h with
  | nil => omega
  | @cons first _ _ _ _ _ _ inside after ihInside ihAfter =>
    rcases Nat.lt_or_ge n (t.stop first) with hlt | hge
    · rcases Nat.eq_or_lt_of_le hfirst with rfl | hne
      · exact inside
      · exact ihInside hne hlt
    · exact ihAfter hge hstop

/-- A node of a forest is a top, or its parent is in the forest too and ends no earlier. -/
theorem parent_cases (h : Forest t first parent index roots stop) {n : Nat} (hfirst : first ≤ n)
    (hstop : n < stop) :
    (n ∈ roots ∧ t.parent? n = parent) ∨
      ∃ p, t.parent? n = some p ∧ first ≤ p ∧ p < n ∧ n ∈ t.children p ∧
        t.stop n ≤ t.stop p := by
  induction h with
  | nil => omega
  | @cons first parent _ roots _ parent_eq _ inside after ihInside ihAfter =>
    rcases Nat.lt_or_ge n (t.stop first) with hlt | hge
    · rcases Nat.eq_or_lt_of_le hfirst with rfl | hne
      · exact Or.inl ⟨List.mem_cons_self .., parent_eq⟩
      · right
        rcases ihInside hne hlt with ⟨hmem, hparent⟩ | ⟨p, hparent, hle, hp⟩
        · exact ⟨first, hparent, Nat.le_refl _, hne, hmem, (inside.stop_bounds hne hlt).2⟩
        · exact ⟨p, hparent, by omega, hp⟩
    · have hin := inside.first_le
      rcases ihAfter hge hstop with ⟨hmem, hparent⟩ | ⟨p, hparent, hle, hp⟩
      · exact Or.inl ⟨List.mem_cons_of_mem _ hmem, hparent⟩
      · exact Or.inr ⟨p, hparent, by omega, hp⟩

/-- The tops of a forest are in it, and have its parent. -/
theorem mem_roots (h : Forest t first parent index roots stop) {n : Nat} (hn : n ∈ roots) :
    first ≤ n ∧ n < stop ∧ t.parent? n = parent := by
  induction h with
  | nil => simp at hn
  | @cons first _ _ _ _ parent_eq _ inside after _ ihAfter =>
    have hin := inside.first_le
    have hout := after.first_le
    rcases List.mem_cons.mp hn with rfl | hmem
    · exact ⟨Nat.le_refl _, by omega, parent_eq⟩
    · have hroot := ihAfter hmem
      exact ⟨by omega, hroot.2⟩

/-- The descendants of a top end before the next top. -/
theorem pairwise_roots (h : Forest t first parent index roots stop) :
    roots.Pairwise fun a b => t.stop a ≤ b := by
  induction h with
  | nil => exact List.Pairwise.nil
  | cons _ _ _ after _ ihAfter =>
    exact List.pairwise_cons.mpr ⟨fun b hb => (after.mem_roots hb).1, ihAfter⟩

end Forest

/-! ## Trees -/

theorem node_eq_absent {t : Tree} {n : Nat} (hn : t.size ≤ n) : t.node n = Node.absent := by
  rw [node, Array.getElem?_eq_none hn, Option.getD_none]

/-- Nodes that are not in the tree have no parent. -/
theorem lt_size_of_parent {t : Tree} {n p : Nat} (h : t.parent? n = some p) : n < t.size := by
  by_contra hn
  rw [parent?, node_eq_absent (Nat.le_of_not_lt hn)] at h
  cases h

namespace IsPreorder

variable {t : Tree} (h : t.IsPreorder)
include h

theorem size_pos : 0 < t.size := by
  cases h with
  | cons _ _ inside after =>
    have hin := inside.first_le
    have hout := after.first_le
    omega

/-- The descendants of a node are a forest, and its children are the tops. -/
theorem forest_children {n : Nat} (hn : n < t.size) :
    Forest t (n + 1) (some n) 0 (t.children n) (t.stop n) :=
  h.inner (Nat.zero_le n) hn

theorem lt_stop {n : Nat} (hn : n < t.size) : n < t.stop n :=
  (h.stop_bounds (Nat.zero_le n) hn).1

theorem stop_le_size {n : Nat} (hn : n < t.size) : t.stop n ≤ t.size :=
  (h.stop_bounds (Nat.zero_le n) hn).2

theorem parent_root : t.parent? root = none := by
  cases h with
  | cons parent_eq _ _ _ => exact parent_eq

/-- Every node but the root has a parent, before it and ending no earlier. -/
theorem exists_parent {n : Nat} (hn : n < t.size) (hroot : n ≠ root) :
    ∃ p, t.parent? n = some p ∧ p < n ∧ n ∈ t.children p ∧ t.stop n ≤ t.stop p := by
  rcases h.parent_cases (Nat.zero_le n) hn with ⟨hmem, -⟩ | ⟨p, hparent, -, hp⟩
  · exact absurd (List.mem_singleton.mp hmem) hroot
  · exact ⟨p, hparent, hp⟩

/-- What a node's link to its parent says. -/
theorem of_parent {n p : Nat} (hp : t.parent? n = some p) :
    p < n ∧ n ∈ t.children p ∧ t.stop n ≤ t.stop p := by
  have hroot : n ≠ root := by
    rintro rfl
    rw [h.parent_root] at hp
    cases hp
  obtain ⟨q, hq, hrest⟩ := h.exists_parent (lt_size_of_parent hp) hroot
  rw [hp] at hq
  cases hq
  exact hrest

theorem parent_lt {n p : Nat} (hp : t.parent? n = some p) : p < n :=
  (h.of_parent hp).1

theorem parent_lt_size {n p : Nat} (hp : t.parent? n = some p) : p < t.size :=
  Nat.lt_trans (h.parent_lt hp) (lt_size_of_parent hp)

theorem stop_le_stop_of_parent {n p : Nat} (hp : t.parent? n = some p) : t.stop n ≤ t.stop p :=
  (h.of_parent hp).2.2

/-- A descendant ends no later than the node. -/
theorem stop_le_stop_of_inside {n m : Nat} (hn : n < t.size) (hnm : n ≤ m) (hm : m < t.stop n) :
    t.stop m ≤ t.stop n := by
  rcases Nat.eq_or_lt_of_le hnm with rfl | hlt
  · exact Nat.le_refl _
  · exact ((h.forest_children hn).stop_bounds hlt hm).2

/-- The parent of a node among the descendants of `n` is `n` or one of its descendants. -/
theorem exists_parent_of_inside {n m : Nat} (hn : n < t.size) (hnm : n < m)
    (hm : m < t.stop n) : ∃ p, t.parent? m = some p ∧ n ≤ p := by
  have hinner := h.forest_children hn
  rcases hinner.parent_cases hnm hm with ⟨-, hp⟩ | ⟨p, hp, hle, -⟩
  · exact ⟨n, hp, Nat.le_refl n⟩
  · exact ⟨p, hp, by omega⟩

/-- The children of a node are the nodes whose parent it is. -/
theorem mem_children_iff {n p : Nat} (hp : p < t.size) :
    n ∈ t.children p ↔ t.parent? n = some p := by
  constructor
  · intro hn
    exact ((h.forest_children hp).mem_roots hn).2.2
  · intro hn
    exact (h.of_parent hn).2.1

/-- The descendants of a child end before the next child. -/
theorem pairwise_children {p : Nat} (hp : p < t.size) :
    (t.children p).Pairwise fun a b => t.stop a ≤ b :=
  (h.forest_children hp).pairwise_roots

/-! ## Ancestors -/

/-- Climbing ends at the root, so more room than `n + 1` nodes changes nothing. -/
theorem climb_eq_ancestorsOrSelf {count n : Nat} (hcount : n < count) :
    t.climb count n = t.ancestorsOrSelf n := by
  -- along the way up the numbers shrink, so the room left always suffices
  induction n using Nat.strongRecOn generalizing count with
  | ind n ih =>
    obtain ⟨count, rfl⟩ : ∃ c, count = c + 1 := ⟨count - 1, by omega⟩
    rw [ancestorsOrSelf, climb, climb]
    cases hp : t.parent? n with
    | none => rfl
    | some p =>
      have hlt := h.parent_lt hp
      simp only [List.cons.injEq, true_and]
      rw [ih p hlt (by omega), ih p hlt hlt]

theorem ancestorsOrSelf_of_parent {n p : Nat} (hp : t.parent? n = some p) :
    t.ancestorsOrSelf n = n :: t.ancestorsOrSelf p := by
  rw [ancestorsOrSelf, climb, hp]
  exact congrArg (n :: ·) (h.climb_eq_ancestorsOrSelf (h.parent_lt hp))

omit h in
theorem ancestorsOrSelf_of_no_parent {n : Nat} (hp : t.parent? n = none) :
    t.ancestorsOrSelf n = [n] := by
  rw [ancestorsOrSelf, climb, hp]

omit h in
theorem ancestorsOrSelf_eq_cons (n : Nat) : t.ancestorsOrSelf n = n :: t.ancestors n := by
  rw [ancestors, ancestorsOrSelf, climb]
  rfl

omit h in
theorem self_mem_ancestorsOrSelf (n : Nat) : n ∈ t.ancestorsOrSelf n := by
  rw [ancestorsOrSelf_eq_cons]
  exact List.mem_cons_self ..

/-- The ancestors of a node, itself included, are the nodes that begin no later than it and end
after it. -/
theorem mem_ancestorsOrSelf_iff {n m : Nat} (hm : m < t.size) :
    n ∈ t.ancestorsOrSelf m ↔ n ≤ m ∧ m < t.stop n := by
  induction m using Nat.strongRecOn with
  | ind m ih =>
    constructor
    · intro hmem
      cases hp : t.parent? m with
      | none =>
        rw [ancestorsOrSelf_of_no_parent hp, List.mem_singleton] at hmem
        subst hmem
        exact ⟨Nat.le_refl n, h.lt_stop hm⟩
      | some p =>
        rw [h.ancestorsOrSelf_of_parent hp] at hmem
        rcases List.mem_cons.mp hmem with rfl | hmem
        · exact ⟨Nat.le_refl n, h.lt_stop hm⟩
        · have hlt := h.parent_lt hp
          have hup := (ih p hlt (by omega)).mp hmem
          have hstop : m < t.stop n := by
            -- `m` is below `p`, whose descendants end where those of `n` end or before
            have hmp := h.lt_stop hm
            have hpn := h.stop_le_stop_of_parent hp
            have hnested := h.stop_le_stop_of_inside (by omega) hup.1 hup.2
            omega
          exact ⟨by omega, hstop⟩
    · rintro ⟨hle, hstop⟩
      rcases Nat.eq_or_lt_of_le hle with rfl | hlt
      · exact self_mem_ancestorsOrSelf n
      · obtain ⟨p, hp, hnp⟩ := h.exists_parent_of_inside (by omega) hlt hstop
        have hpm := h.parent_lt hp
        rw [h.ancestorsOrSelf_of_parent hp]
        exact List.mem_cons_of_mem _ ((ih p hpm (by omega)).mpr ⟨hnp, by omega⟩)

/-- The ancestors of a node of the tree are nodes of the tree. -/
theorem lt_size_of_mem_ancestorsOrSelf {n m : Nat} (hm : m < t.size)
    (hmem : n ∈ t.ancestorsOrSelf m) : n < t.size :=
  Nat.lt_of_le_of_lt ((h.mem_ancestorsOrSelf_iff hm).mp hmem).1 hm

/-- The way from an ancestor to the root is the last part of the way from the node. -/
theorem ancestorsOrSelf_suffix {n m : Nat} (hmem : n ∈ t.ancestorsOrSelf m) :
    t.ancestorsOrSelf n <:+ t.ancestorsOrSelf m := by
  induction m using Nat.strongRecOn with
  | ind m ih =>
    cases hp : t.parent? m with
    | none =>
      rw [ancestorsOrSelf_of_no_parent hp, List.mem_singleton] at hmem
      subst hmem
      exact List.suffix_refl _
    | some p =>
      rw [h.ancestorsOrSelf_of_parent hp] at hmem
      rcases List.mem_cons.mp hmem with rfl | hmem
      · exact List.suffix_refl _
      · rw [h.ancestorsOrSelf_of_parent hp]
        exact (ih p (h.parent_lt hp) hmem).trans (List.suffix_cons m _)

/-- The way up from a node on the way up is the rest of the way. -/
theorem ancestorsOrSelf_of_append {n m : Nat} {below above : List Nat}
    (hway : t.ancestorsOrSelf n = below ++ m :: above) : t.ancestorsOrSelf m = m :: above := by
  induction below generalizing n with
  | nil =>
    have hself := hway
    rw [ancestorsOrSelf_eq_cons, List.nil_append, List.cons.injEq] at hself
    rw [← hself.1]
    exact hself.1 ▸ hway
  | cons a below ih =>
    cases hp : t.parent? n with
    | none =>
      rw [ancestorsOrSelf_of_no_parent hp, List.cons_append, List.cons.injEq] at hway
      exact absurd hway.2.symm (List.append_ne_nil_of_right_ne_nil _ (List.cons_ne_nil _ _))
    | some p =>
      rw [h.ancestorsOrSelf_of_parent hp, List.cons_append, List.cons.injEq] at hway
      exact ih hway.2

/-- An ancestor is higher up. -/
theorem length_ancestors_lt {n m : Nat} (hmem : n ∈ t.ancestors m) :
    (t.ancestors n).length < (t.ancestors m).length := by
  cases hp : t.parent? m with
  | none =>
    rw [ancestors, ancestorsOrSelf_of_no_parent hp] at hmem
    cases hmem
  | some p =>
    have hup : t.ancestors m = t.ancestorsOrSelf p := by
      rw [ancestors, h.ancestorsOrSelf_of_parent hp]
      rfl
    rw [hup] at hmem ⊢
    have hle := (h.ancestorsOrSelf_suffix hmem).length_le
    rw [ancestorsOrSelf_eq_cons, List.length_cons] at hle
    exact hle

end IsPreorder

/-! ## Trees of outlines

The nodes of an outline with number `first` fill the list of a tree from place `first` on, which
is said as: they are a prefix of what is left of the list after `first` nodes. -/

end Tree

namespace Outline

mutual

theorem length_nodes (number : Nat) (parent : Option Nat) (name : Option String) (index : Nat) :
    ∀ o : Outline, (o.nodes number parent name index).length = o.size
  | .scalar _ => by
    rw [nodes, size]
    rfl
  | .collection _ children => by
    rw [nodes, size, List.length_cons, length_childNodes]
    omega

theorem length_childNodes (number parent index : Nat) : ∀ children : List (Option String × Outline),
    (childNodes number parent index children).length = sizeOfChildren children
  | [] => by
    rw [childNodes, sizeOfChildren]
    rfl
  | (_, o) :: children => by
    rw [childNodes, sizeOfChildren, List.length_append, length_nodes, length_childNodes]

end

end Outline

namespace Tree

variable {t : Tree}

/-- The first of the nodes that stand in a tree from a number on has this number. -/
theorem node_of_isPrefix {number : Nat} {n : Node} {ns : List Node}
    (h : n :: ns <+: t.nodes.toList.drop number) :
    t.node number = n ∧ ns <+: t.nodes.toList.drop (number + 1) := by
  obtain ⟨rest, hrest⟩ := h
  have hget : t.nodes.toList[number]? = some n := by
    rw [← Nat.add_zero number, ← List.getElem?_drop, ← hrest]
    rfl
  constructor
  · rw [node, ← Array.getElem?_toList, hget, Option.getD_some]
  · refine ⟨rest, ?_⟩
    rw [← List.drop_drop, ← hrest]
    rfl

theorem isPrefix_of_append {number : Nat} {ns ms : List Node}
    (h : ns ++ ms <+: t.nodes.toList.drop number) :
    ns <+: t.nodes.toList.drop number ∧ ms <+: t.nodes.toList.drop (number + ns.length) := by
  obtain ⟨rest, hrest⟩ := h
  constructor
  · exact ⟨ms ++ rest, by rw [← List.append_assoc, hrest]⟩
  · refine ⟨rest, ?_⟩
    rw [← List.drop_drop, ← hrest, List.append_assoc, List.drop_left]

/-- The nodes of children are those of the first one and then those of the others. -/
theorem isPrefix_of_childNodes_cons {number parent index : Nat} {name : Option String} {o : Outline}
    {children : List (Option String × Outline)}
    (h : Outline.childNodes number parent index ((name, o) :: children)
      <+: t.nodes.toList.drop number) :
    o.nodes number (some parent) name index <+: t.nodes.toList.drop number ∧
      Outline.childNodes (number + o.size) parent (index + 1) children
        <+: t.nodes.toList.drop (number + o.size) := by
  rw [Outline.childNodes] at h
  have hparts := isPrefix_of_append h
  rw [Outline.length_nodes] at hparts
  exact hparts

mutual

/-- The nodes of an outline are a forest with one top. -/
theorem forest_of_nodes {number : Nat} {parent : Option Nat} {name : Option String} {index : Nat}
    {roots : List Nat} {stop : Nat} : ∀ (o : Outline),
    o.nodes number parent name index <+: t.nodes.toList.drop number →
    Forest t (number + o.size) parent (index + 1) roots stop →
    Forest t number parent index (number :: roots) stop
  | .scalar text, hnodes, hafter => by
    rw [Outline.nodes] at hnodes
    have hnode := (node_of_isPrefix hnodes).1
    have hstop : t.stop number = number + 1 := by rw [Tree.stop, hnode]
    have hchildren : t.children number = [] := by rw [Tree.children, hnode]
    refine Forest.cons (by rw [parent?, hnode]) (by rw [Tree.index, hnode]) ?_ ?_
    · rw [hchildren, hstop]
      exact Forest.nil
    · rw [hstop]
      exact hafter
  | .collection kind children, hnodes, hafter => by
    rw [Outline.nodes] at hnodes
    obtain ⟨hnode, hinside⟩ := node_of_isPrefix hnodes
    have hstop : t.stop number = number + 1 + Outline.sizeOfChildren children := by
      rw [Tree.stop, hnode]
    have hchildren : t.children number = Outline.childNumbers (number + 1) children := by
      rw [Tree.children, hnode]
    refine Forest.cons (by rw [parent?, hnode]) (by rw [Tree.index, hnode]) ?_ ?_
    · rw [hchildren, hstop]
      exact forest_of_childNodes children hinside
    · rw [hstop, Nat.add_assoc]
      exact hafter

/-- The nodes of the children of a collection are a forest below it. -/
theorem forest_of_childNodes {number parent index : Nat} :
    ∀ (children : List (Option String × Outline)),
    Outline.childNodes number parent index children <+: t.nodes.toList.drop number →
    Forest t number (some parent) index (Outline.childNumbers number children)
      (number + Outline.sizeOfChildren children)
  | [], _ => by
    rw [Outline.childNumbers, Outline.sizeOfChildren]
    exact Forest.nil
  | (name, o) :: children, hnodes => by
    obtain ⟨hfirst, hrest⟩ := isPrefix_of_childNodes_cons hnodes
    rw [Outline.childNumbers, Outline.sizeOfChildren, ← Nat.add_assoc]
    exact forest_of_nodes o hfirst (forest_of_childNodes children hrest)

end

theorem size_ofOutline (o : Outline) : (ofOutline o).size = o.size := by
  rw [ofOutline, size, List.size_toArray, Outline.length_nodes]

/-- **The tree of an outline is in pre-order.** -/
theorem isPreorder_ofOutline (o : Outline) : (ofOutline o).IsPreorder := by
  have hnodes : o.nodes root none none 0 <+: (ofOutline o).nodes.toList.drop root := by
    exact List.prefix_refl _
  refine forest_of_nodes o hnodes ?_
  rw [size_ofOutline, root, Nat.zero_add]
  exact Forest.nil

/-- Trees with the same links are in pre-order together. -/
theorem Forest.congr {u : Tree} (hparent : ∀ n, u.parent? n = t.parent? n)
    (hindex : ∀ n, u.index n = t.index n) (hchildren : ∀ n, u.children n = t.children n)
    (hstop : ∀ n, u.stop n = t.stop n) {first : Nat} {parent : Option Nat} {index : Nat}
    {roots : List Nat} {stop : Nat} (h : Forest t first parent index roots stop) :
    Forest u first parent index roots stop := by
  induction h with
  | nil => exact Forest.nil
  | cons parent_eq index_eq _ _ ihInside ihAfter =>
    rw [← hchildren, ← hstop] at ihInside
    rw [← hstop] at ihAfter
    exact Forest.cons (by rw [hparent, parent_eq]) (by rw [hindex, index_eq]) ihInside ihAfter

end Tree

end WorkflowLens
