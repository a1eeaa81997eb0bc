import Mathlib.Logic.Relation
import WorkflowLens.Proofs.Tree.Links
import WorkflowLens.Proofs.Tree.Walk

/-!
# Subtrees

A subtree can be told in two ways.  The numbers say that it is everything from a node up to its
`stop`, and so do `Tree.contains` and `Tree.nodesWhere`, which look at no link at all.  The links
say that it is what is reached from the node by going down to children, and that its nodes are
those from which one gets to the node by going up to parents.

The two agree because a tree is numbered in pre-order.  Going up and going down are bounded in
`Tree.ancestorsOrSelf` and `Tree.walk`, and part of the statement is that the bounds are never
met: the ancestors are all that parents lead to, and the walk is its own equation.

* `IsPreorder.walk_eq_cons`: a walk goes to a node and then through its children, one by one.
* `IsPreorder.mem_ancestorsOrSelf_iff_reflTransGen`: the ancestors are what parents lead to.
* `contains_nodesWhere_spec`: the numbers and the links of a tree tell the same subtrees.
-/

namespace WorkflowLens.Tree

/-- Node `n` is a child of node `p`, as its link to its parent says. -/
def IsChildOf (t : Tree) (n p : Nat) : Prop := t.parent? n = some p

namespace IsPreorder

variable {t : Tree} (h : t.IsPreorder)
include h

/-! ## Going down -/

/-- **A walk from a node meets the node and then walks from each of its children in turn.** -/
theorem walk_eq_cons {n : Nat} (hn : n < t.size) :
    t.walk n = n :: (t.children n).flatMap t.walk := by
  have hlt := h.lt_stop hn
  have hle := h.stop_le_size hn
  have hbelow : (t.children n).flatMap t.walk = List.range' (n + 1) (t.stop n - (n + 1)) :=
    (h.forest_children hn).flatMap_walkIn t.size (by omega)
  rw [hbelow, h.walk_eq hn, ← List.range'_succ]
  congr 1
  omega

theorem nodup_walk {n : Nat} (hn : n < t.size) : (t.walk n).Nodup := by
  rw [h.walk_eq hn]
  exact List.nodup_range'

/-- What is collected by number is collected on the walk. -/
theorem nodesWhere_eq_filter_walk {n : Nat} (hn : n < t.size) (p : Nat → Bool) :
    t.nodesWhere n p = (t.walk n).filter p := by
  rw [nodesWhere, h.walk_eq hn]

/-! ## Going up -/

/-- The ancestors of a node, itself included, are the nodes that going up to parents leads to. -/
theorem mem_ancestorsOrSelf_iff_reflTransGen {n m : Nat} :
    n ∈ t.ancestorsOrSelf m ↔ Relation.ReflTransGen t.IsChildOf m n := by
  constructor
  · intro hmem
    -- a parent has a smaller number than its child, so going up ends
    induction m using Nat.strongRecOn with
    | ind m ih =>
      cases hp : t.parent? m with
      | none =>
        rw [ancestorsOrSelf_of_no_parent hp, List.mem_singleton] at hmem
        rw [hmem]
      | some p =>
        rw [h.ancestorsOrSelf_of_parent hp] at hmem
        rcases List.mem_cons.mp hmem with rfl | hup
        · exact .refl
        · exact .head hp (ih p (h.parent_lt hp) hup)
  · intro hup
    induction hup using Relation.ReflTransGen.head_induction_on with
    | refl => exact self_mem_ancestorsOrSelf n
    | head hp _ ih =>
      rw [h.ancestorsOrSelf_of_parent hp]
      exact List.mem_cons_of_mem _ ih

theorem contains_iff_reflTransGen {n m : Nat} (hm : m < t.size) :
    t.contains n m = true ↔ Relation.ReflTransGen t.IsChildOf m n := by
  rw [← h.mem_ancestorsOrSelf_iff_reflTransGen, h.mem_ancestorsOrSelf_iff hm, contains,
    Bool.and_eq_true, decide_eq_true_eq, decide_eq_true_eq]

end IsPreorder

/-- **The numbers and the links of a tree tell the same subtrees.**  A node contains another one
exactly if it is that node or an ancestor of it, and what is collected below a node is what is met
on the depth-first walk from it, in that order and nothing twice. -/
theorem contains_nodesWhere_spec {t : Tree} {text : Text} (h : t.IsLocated text) :
    (∀ n < t.size, ∀ m < t.size,
      t.contains n m = true ↔ Relation.ReflTransGen t.IsChildOf m n) ∧
    ∀ n < t.size, t.walk n = n :: (t.children n).flatMap t.walk ∧ (t.walk n).Nodup ∧
      ∀ p : Nat → Bool, t.nodesWhere n p = (t.walk n).filter p := by
  have hpre := h.isPreorder
  refine ⟨fun n _ m hm => hpre.contains_iff_reflTransGen hm, fun n hn => ?_⟩
  exact ⟨hpre.walk_eq_cons hn, hpre.nodup_walk hn, hpre.nodesWhere_eq_filter_walk hn⟩

/-- A document with two entries, each of which has an entry of the same name. -/
def twoEntriesText : Text := "a: \x7bc: [x]\x7d\nb: \x7bc: y\x7d".toList

/-- The tree of `twoEntriesText`. -/
def twoEntriesTree : Tree :=
  ⟨#[⟨none, none, .mapping, none, [1, 4], 0, 6, Span.upTo 0 21⟩,
    ⟨some "a", none, .mapping, some 0, [2], 0, 4, Span.upTo 0 12⟩,
    ⟨some "c", none, .sequence, some 1, [3], 0, 4, Span.upTo 4 12⟩,
    ⟨none, some "x", .scalar, some 2, [], 0, 4, Span.upTo 8 12⟩,
    ⟨some "b", none, .mapping, some 0, [5], 1, 6, Span.upTo 12 21⟩,
    ⟨some "c", some "y", .scalar, some 4, [], 0, 6, Span.upTo 16 21⟩]⟩

/-- The first entry contains what is below its own `c`, but not the other `c`, and only the first
`c` is collected there. -/
theorem contains_twoEntriesTree :
    twoEntriesTree.IsLocated twoEntriesText ∧ 1 < twoEntriesTree.size ∧ 5 < twoEntriesTree.size ∧
      Relation.ReflTransGen twoEntriesTree.IsChildOf 3 1 ∧
      ¬ Relation.ReflTransGen twoEntriesTree.IsChildOf 5 1 ∧
      (twoEntriesTree.walk 1).filter (twoEntriesTree.hasName "c") = [2] ∧
      (twoEntriesTree.walk 0).filter (twoEntriesTree.hasName "c") = [2, 5] := by
  have hlocated : twoEntriesTree.IsLocated twoEntriesText :=
    ⟨.mapping [(.string "a", .mapping [(.string "c", .sequence [.string "x"])]),
      (.string "b", .mapping [(.string "c", .string "y")])], _, rfl, rfl⟩
  obtain ⟨hcontains, hwalk⟩ := contains_nodesWhere_spec hlocated
  refine ⟨hlocated, by decide, by decide, ?_, ?_, ?_, ?_⟩
  · exact (hcontains 1 (by decide) 3 (by decide)).mp rfl
  · exact fun hup => Bool.false_ne_true ((hcontains 1 (by decide) 5 (by decide)).mpr hup)
  · exact ((hwalk 1 (by decide)).2.2 _).symm.trans (by decide)
  · exact ((hwalk 0 (by decide)).2.2 _).symm.trans (by decide)

end WorkflowLens.Tree
