import WorkflowLens.Proofs.Tree.Preorder

/-!
# Locations

The location of a node is the list of steps from the root to it.  A node adds one step to the
location of its parent, so the locations along the way up are exactly the prefixes of the location
of the node.  What is asked of a node by its parent, the parent of its parent and so on is thereby
an equation on its location, and what is asked of one of its ancestors is a prefix.

* `step_eq_key_iff`, `step_eq_item_iff`: the last step.
* `IsPreorder.location_of_parent`: a node adds a step to the location of its parent.
* `IsPreorder.location_eq_append_iff`: a location whose last step is known.
* `IsPreorder.isPrefix_location_iff`: the prefixes of a location are those of the ancestors.
-/

namespace WorkflowLens.Tree

variable {t : Tree} {n : Nat}

/-! ## The last step -/

theorem step_eq_key_iff {name : String} : t.step n = .key name ↔ t.name? n = some name := by
  rw [step]
  cases t.name? n with
  | none => simp
  | some other => simp

theorem step_eq_item_iff {i : Nat} :
    t.step n = .item i ↔ t.name? n = none ∧ t.index n = i := by
  rw [step]
  cases t.name? n with
  | none => simp
  | some other => simp

theorem isRoot_iff : isRoot n = true ↔ n = root := beq_iff_eq

theorem hasName_iff {name : String} : t.hasName name n = true ↔ t.name? n = some name := by
  rw [hasName, beq_iff_eq]

/-! ## Locations along the way up -/

namespace IsPreorder

variable (h : t.IsPreorder)
include h

theorem location_root : t.location root = [] := by
  rw [location, ancestorsOrSelf_of_no_parent h.parent_root]
  rfl

theorem ne_root_of_parent {p : Nat} (hp : t.parent? n = some p) : n ≠ root := by
  rintro rfl
  rw [h.parent_root] at hp
  cases hp

/-- A node adds a step to the location of its parent. -/
theorem location_of_parent {p : Nat} (hp : t.parent? n = some p) :
    t.location n = t.location p ++ [t.step n] := by
  have hroot : (!isRoot n) = true := by
    rw [Bool.not_eq_true', ← Bool.not_eq_true, isRoot_iff]
    exact h.ne_root_of_parent hp
  rw [location, h.ancestorsOrSelf_of_parent hp, List.filter_cons, if_pos hroot, List.reverse_cons,
    List.map_append, location]
  rfl

/-- Only the root has no step. -/
theorem location_eq_nil_iff (hn : n < t.size) : t.location n = [] ↔ n = root := by
  constructor
  · intro hnil
    by_contra hroot
    obtain ⟨p, hp, -⟩ := h.exists_parent hn hroot
    rw [h.location_of_parent hp] at hnil
    exact List.append_ne_nil_of_right_ne_nil _ (List.cons_ne_nil _ _) hnil
  · rintro rfl
    exact h.location_root

theorem location_eq_append_iff (hn : n < t.size) {l : List Step} {s : Step} :
    t.location n = l ++ [s] ↔ ∃ p, t.parent? n = some p ∧ t.location p = l ∧ t.step n = s := by
  constructor
  · intro hl
    have hroot : n ≠ root := by
      rintro rfl
      rw [h.location_root] at hl
      exact List.append_ne_nil_of_right_ne_nil _ (List.cons_ne_nil _ _) hl.symm
    obtain ⟨p, hp, -⟩ := h.exists_parent hn hroot
    rw [h.location_of_parent hp] at hl
    obtain ⟨hup, hlast⟩ := List.append_inj' hl rfl
    exact ⟨p, hp, hup, List.singleton_inj.mp hlast⟩
  · rintro ⟨p, hp, rfl, rfl⟩
    exact h.location_of_parent hp

/-- The ancestors of a node, itself included, have the prefixes of its location. -/
theorem isPrefix_location_iff (hn : n < t.size) {l : List Step} :
    l <+: t.location n ↔ ∃ a ∈ t.ancestorsOrSelf n, t.location a = l := by
  induction n using Nat.strongRecOn with
  | ind n ih =>
    by_cases hroot : n = root
    · subst hroot
      rw [ancestorsOrSelf_of_no_parent h.parent_root, h.location_root, List.prefix_nil]
      simp only [List.mem_singleton, exists_eq_left, h.location_root]
      exact eq_comm
    · obtain ⟨p, hp, hlt, -⟩ := h.exists_parent hn hroot
      have hself := h.location_of_parent hp
      rw [h.ancestorsOrSelf_of_parent hp, hself, List.prefix_concat_iff, ← hself,
        ih p hlt (Nat.lt_trans hlt hn)]
      simp only [List.mem_cons, exists_eq_or_imp]
      exact or_congr_left eq_comm

end IsPreorder

end WorkflowLens.Tree
