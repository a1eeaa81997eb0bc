import WorkflowLens.Proofs.Tree.Walk

/-!
# The names of nodes

A node of a tree has a name if it stands for an entry of a mapping.  An outline could name the
items of sequences as well, so this holds for the outlines of values only, and the induction is on
the value.

* `links_of_nodes`: the name and the parent of the first node of an outline.
* `IsLocated.name?_root`: the root has no name.
* `IsLocated.shape_parent_of_name`: the parent of a node with a name is a mapping.
-/

namespace WorkflowLens.Tree

open Yaml (Value)

variable {t : Tree}

/-- The first node of an outline has the name and the parent that it was made with. -/
theorem links_of_nodes {number : Nat} {parent : Option Nat} {name : Option String} {index : Nat}
    {o : Outline}
    (h : o.nodes number parent name index <+: t.nodes.toList.drop number) :
    t.name? number = name ∧ t.parent? number = parent := by
  cases o with
  | scalar text =>
    rw [Outline.nodes] at h
    rw [name?, parent?, (node_of_isPrefix h).1]
    exact ⟨rfl, rfl⟩
  | collection kind children =>
    rw [Outline.nodes] at h
    rw [name?, parent?, (node_of_isPrefix h).1]
    exact ⟨rfl, rfl⟩

/-- The root has no name. -/
theorem IsLocated.name?_root {text : Text} (h : t.IsLocated text) :
    t.name? root = none := by
  obtain ⟨v, o, -, rfl⟩ := h.exists_eq_withStarts
  rw [name?_withStarts]
  exact (@links_of_nodes (ofOutline o) root none none 0 o (List.prefix_refl _)).1

/-- If a node has a name, its parent is a mapping. -/
def IsNamedByMapping (t : Tree) (n : Nat) : Prop :=
  t.name? n = none ∨ ∃ p, t.parent? n = some p ∧ t.shape p = .mapping

mutual

/-- Below the top of a value names come from mappings. -/
theorem isNamedByMapping_of_nodes {number : Nat} {parent : Option Nat} {name : Option String}
    {index m : Nat} (hlt : number < m) : ∀ v : Value,
    (Outline.ofValue v).nodes number parent name index <+: t.nodes.toList.drop number →
    m < number + (Outline.ofValue v).size → t.IsNamedByMapping m
  | .tagged _ v, h, hm => by
    rw [Outline.ofValue] at h hm
    exact isNamedByMapping_of_nodes hlt v h hm
  | .sequence items, h, hm => by
    rw [Outline.ofValue, Outline.nodes] at h
    rw [Outline.ofValue, Outline.size, ← Nat.add_assoc] at hm
    exact isNamedByMapping_of_items hlt items (node_of_isPrefix h).2 hm
  | .mapping entries, h, hm => by
    rw [Outline.ofValue, Outline.nodes] at h
    rw [Outline.ofValue, Outline.size, ← Nat.add_assoc] at hm
    obtain ⟨hnode, hinside⟩ := node_of_isPrefix h
    have hshape : t.shape number = .mapping := by
      rw [shape, hnode]
      rfl
    exact isNamedByMapping_of_entries hshape hlt entries hinside hm
  | .null, _, hm | .bool _, _, hm | .number _, _, hm | .string _, _, hm => by
    simp only [Outline.ofValue, Outline.size] at hm
    omega

theorem isNamedByMapping_of_items {number parent index m : Nat} (hle : number ≤ m) :
    ∀ items : List Value,
    Outline.childNodes number parent index (Outline.ofItems items) <+: t.nodes.toList.drop number →
    m < number + Outline.sizeOfChildren (Outline.ofItems items) → t.IsNamedByMapping m
  | [], _, hm => by
    rw [Outline.ofItems, Outline.sizeOfChildren] at hm
    omega
  | v :: items, h, hm => by
    rw [Outline.ofItems] at h hm
    split at h
    · next hnull =>
      rw [if_pos hnull] at hm
      exact isNamedByMapping_of_items hle items h hm
    · next hnull =>
      rw [if_neg hnull, Outline.sizeOfChildren, ← Nat.add_assoc] at hm
      obtain ⟨hfirst, hrest⟩ := isPrefix_of_childNodes_cons h
      rcases Nat.lt_or_ge m (number + (Outline.ofValue v).size) with hin | hout
      · rcases Nat.eq_or_lt_of_le hle with rfl | hlt
        · exact .inl (links_of_nodes hfirst).1
        · exact isNamedByMapping_of_nodes hlt v hfirst hin
      · exact isNamedByMapping_of_items hout items hrest hm

theorem isNamedByMapping_of_entries {number parent index m : Nat}
    (hshape : t.shape parent = .mapping) (hle : number ≤ m) :
    ∀ entries : List (Value × Value),
    Outline.childNodes number parent index (Outline.ofEntries entries)
      <+: t.nodes.toList.drop number →
    m < number + Outline.sizeOfChildren (Outline.ofEntries entries) → t.IsNamedByMapping m
  | [], _, hm => by
    rw [Outline.ofEntries, Outline.sizeOfChildren] at hm
    omega
  | (_, v) :: entries, h, hm => by
    rw [Outline.ofEntries, Outline.sizeOfChildren, ← Nat.add_assoc] at hm
    rw [Outline.ofEntries] at h
    obtain ⟨hfirst, hrest⟩ := isPrefix_of_childNodes_cons h
    rcases Nat.lt_or_ge m (number + (Outline.ofValue v).size) with hin | hout
    · rcases Nat.eq_or_lt_of_le hle with rfl | hlt
      · exact .inr ⟨parent, (links_of_nodes hfirst).2, hshape⟩
      · exact isNamedByMapping_of_nodes hlt v hfirst hin
    · exact isNamedByMapping_of_entries hshape hout entries hrest hm

end

/-- **The parent of a node with a name is a mapping.** -/
theorem IsLocated.shape_parent_of_name {text : Text} (h : t.IsLocated text) {n p : Nat}
    {name : String} (hname : t.name? n = some name) (hp : t.parent? n = some p) :
    t.shape p = .mapping := by
  have hroot : root < n := Nat.lt_of_le_of_lt (Nat.zero_le p) (h.isPreorder.parent_lt hp)
  have hn := lt_size_of_parent hp
  obtain ⟨v, o, rfl, rfl⟩ := h.exists_eq_withStarts
  rw [name?_withStarts] at hname
  rw [parent?_withStarts] at hp
  rw [size_withStarts, size_ofOutline] at hn
  rw [shape_withStarts]
  have hmapping : (ofOutline (Outline.ofValue v)).IsNamedByMapping n := by
    refine isNamedByMapping_of_nodes hroot v (List.prefix_refl _) ?_
    rw [root, Nat.zero_add]
    exact hn
  rcases hmapping with hnone | ⟨q, hq, hshape⟩
  · rw [hname] at hnone
    cases hnone
  · rw [hp, Option.some.injEq] at hq
    rw [hq]
    exact hshape

end WorkflowLens.Tree
