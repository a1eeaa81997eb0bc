import WorkflowLens.Proofs.Index.Collect
import WorkflowLens.Proofs.Tree.Locations
import WorkflowLens.Proofs.Tree.Subtrees

/-!
# The order of a collection

All declarations are collected in one way: the nodes with a certain key are visited, and what their
children declare is put into a dictionary, unless the name is already there.  So the order of the
names, and which of two declarations of a name counts, are a matter of the order in which children
are offered.

The nodes are visited on a depth-first walk, and one of them can be inside of another one.  Then
all children of the outer node are offered before those of the inner node, although some of them
stand behind it in the document.  Children are in order by their parents first and by their own
places only then.

No child is offered twice, because it has one parent.  So it makes no difference if a filter keeps
count of what it was asked before: whatever it answers, its answers are those of a set of nodes.

* `Tree.offered`: the children that are offered, one after the other.
* `IsPreorder.mem_offered_iff`, `IsPreorder.pairwise_offered`: which ones they are, and their order.
* `exists_filter_eq_acceptedBy`: filters with a memory.
* `Index.collect_spec`: the names and texts that are collected.
-/

namespace WorkflowLens

namespace Tree

/-- The children of all nodes called `field`, which are met on a walk through the tree. -/
def offered (t : Tree) (field : String) : List Nat :=
  ((t.walk root).filter fun n => t.name? n == some field).flatMap t.children

theorem ComesBefore.ne {t : Tree} {n m : Nat} (h : t.ComesBefore n m) : n ≠ m := by
  obtain ⟨p, q, hp, hq, hlt⟩ := h
  rintro rfl
  rw [hp, Option.some.injEq] at hq
  omega

namespace IsPreorder

variable {t : Tree} (h : t.IsPreorder)
include h

theorem offered_eq (field : String) :
    t.offered field = (t.nodesWhere root (t.hasName field)).flatMap t.children := by
  exact congrArg (List.flatMap t.children)
    (h.nodesWhere_eq_filter_walk h.size_pos (t.hasName field)).symm

theorem mem_offered_iff {field : String} {n : Nat} :
    n ∈ t.offered field ↔ ∃ p, t.parent? n = some p ∧ t.name? p = some field := by
  rw [h.offered_eq, List.mem_flatMap]
  simp only [h.mem_nodesWhere_root_iff, hasName_iff]
  constructor
  · rintro ⟨p, ⟨hp, hname⟩, hchild⟩
    exact ⟨p, (h.mem_children_iff hp).mp hchild, hname⟩
  · rintro ⟨p, hparent, hname⟩
    have hp := h.parent_lt_size hparent
    exact ⟨p, ⟨hp, hname⟩, (h.mem_children_iff hp).mpr hparent⟩

theorem pairwise_offered (field : String) : (t.offered field).Pairwise t.ComesBefore := by
  rw [h.offered_eq]
  exact h.pairwise_flatMap_children _

theorem nodup_offered (field : String) : (t.offered field).Nodup :=
  (h.pairwise_offered field).imp ComesBefore.ne

end IsPreorder

end Tree

/-! ## Filters -/

/-- The nodes that a filter with a memory accepts when it is asked about one after the other. -/
def acceptedBy {σ : Type} (ask : σ → Nat → Bool × σ) : σ → List Nat → List Nat
  | _, [] => []
  | s, n :: ns =>
    if (ask s n).1 then n :: acceptedBy ask (ask s n).2 ns else acceptedBy ask (ask s n).2 ns

/-- If a filter is asked about nothing twice, its memory does not matter. -/
theorem exists_filter_eq_acceptedBy {σ : Type} (ask : σ → Nat → Bool × σ) {ns : List Nat}
    (hns : ns.Nodup) (s : σ) : ∃ keep : Nat → Bool, acceptedBy ask s ns = ns.filter keep := by
  induction ns generalizing s with
  | nil => exact ⟨fun _ => true, rfl⟩
  | cons n ns ih =>
    obtain ⟨hn, hrest⟩ := List.nodup_cons.mp hns
    obtain ⟨keep, hkeep⟩ := ih hrest (ask s n).2
    -- the answer about `n` is added to the answers about the others
    refine ⟨fun m => if m = n then (ask s n).1 else keep m, ?_⟩
    have hothers : ns.filter (fun m => if m = n then (ask s n).1 else keep m)
        = ns.filter keep := by
      refine List.filter_congr fun m hm => if_neg ?_
      rintro rfl
      exact hn hm
    rw [acceptedBy, hkeep, List.filter_cons, if_pos rfl, hothers]

/-! ## What is collected -/

/-- **What is collected is in the order in which children are offered, and of two declarations of a
name the first counts.**  The filter is asked about no child twice, so a filter with a memory is
one without. -/
theorem Index.collect_spec {t : Tree} {text : Text} (h : t.IsLocated text) {ix : Index}
    (htree : ix.tree = some t) (field : String) (keep : Tree → Nat → Bool)
    (name? : Tree → Nat → Option String) (value : Tree → Nat → String) :
    (ix.collect field keep name? value).names
        = (((t.offered field).filter (keep t)).filterMap (name? t)).eraseDups ∧
      (∀ name, (ix.collect field keep name? value).get? name
        = (((t.offered field).filter (keep t)).find? fun n => name? t n == some name).map
            (value t)) ∧
      (∀ n, n ∈ t.offered field ↔ ∃ p, t.parent? n = some p ∧ t.name? p = some field) ∧
      (t.offered field).Pairwise t.ComesBefore ∧
      ∀ {σ : Type} (ask : σ → Nat → Bool × σ) (s : σ), ∃ accepts : Nat → Bool,
        acceptedBy ask s (t.offered field) = (t.offered field).filter accepts := by
  have hpre := h.isPreorder
  have hcollect : ix.collect field keep name? value
      = t.collect field (keep t) (name? t) (value t) := by
    rw [Index.collect, Index.dictionary, htree]
    rfl
  rw [hcollect]
  refine ⟨?_, fun name => ?_, fun n => hpre.mem_offered_iff, hpre.pairwise_offered field,
    fun ask => exists_filter_eq_acceptedBy ask (hpre.nodup_offered field)⟩
  · rw [hpre.offered_eq, Tree.names_collect]
  · rw [hpre.offered_eq, Tree.get?_collect]

/-- A document with variables in a mapping of variables. -/
def nestedEnvText : Text := "env: \x7bA: 1, env: \x7bA: 2, B: 3\x7d, C: 4\x7d".toList

/-- The tree of `nestedEnvText`. -/
def nestedEnvTree : Tree :=
  ⟨#[⟨none, none, .mapping, none, [1], 0, 7, Span.upTo 0 36⟩,
    ⟨some "env", none, .mapping, some 0, [2, 3, 6], 0, 7, Span.upTo 0 36⟩,
    ⟨some "A", some "1", .scalar, some 1, [], 0, 3, Span.upTo 6 12⟩,
    ⟨some "env", none, .mapping, some 1, [4, 5], 1, 6, Span.upTo 12 31⟩,
    ⟨some "A", some "2", .scalar, some 3, [], 0, 5, Span.upTo 18 24⟩,
    ⟨some "B", some "3", .scalar, some 3, [], 1, 6, Span.upTo 24 31⟩,
    ⟨some "C", some "4", .scalar, some 1, [], 2, 7, Span.upTo 31 36⟩]⟩

/-- The outer variables come first, so that `C` is in front of `B`, which it stands behind in the
document, and of the two variables `A` the outer one counts. -/
theorem collect_nestedEnvTree : nestedEnvTree.IsLocated nestedEnvText ∧
    (Index.mk (some nestedEnvTree) .workflow 0).tree = some nestedEnvTree ∧
    ((Index.mk (some nestedEnvTree) .workflow 0).collect "env" (fun _ _ => true) Tree.name?
      fun t n => (t.value? n).getD "").names = ["A", "env", "C", "B"] ∧
    ((Index.mk (some nestedEnvTree) .workflow 0).collect "env" (fun _ _ => true) Tree.name?
      fun t n => (t.value? n).getD "").get? "A" = some "1" := by
  have hlocated : nestedEnvTree.IsLocated nestedEnvText :=
    ⟨.mapping [(.string "env", .mapping [(.string "A", .string "1"),
      (.string "env", .mapping [(.string "A", .string "2"), (.string "B", .string "3")]),
      (.string "C", .string "4")])], _, rfl, by decide +kernel⟩
  have htree : (Index.mk (some nestedEnvTree) .workflow 0).tree = some nestedEnvTree := rfl
  obtain ⟨hnames, htexts, -⟩ := Index.collect_spec hlocated htree "env" (fun _ _ => true)
    Tree.name? fun t n => (t.value? n).getD ""
  exact ⟨hlocated, htree, hnames.trans (by decide +kernel), (htexts "A").trans (by decide +kernel)⟩

end WorkflowLens
