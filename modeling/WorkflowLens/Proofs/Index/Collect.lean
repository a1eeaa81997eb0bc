import Mathlib.Data.List.Induction
import WorkflowLens.Index.Declarations
import WorkflowLens.Proofs.Tree.Links

/-!
# What is collected

* `Dictionary.names_ofListFirst`: the names of a list are the names of its dictionary, each in the
  place where it came first.
* `Dictionary.get?_ofListFirst`: of two texts of a name the first counts.
* `Tree.IsPreorder.pairwise_flatMap_children`: the order in which the children of certain nodes are
  met.
* `Tree.IsPreorder.mem_names_collect_iff`: the names that are collected from a tree are those of
  the children of all nodes with a certain key, as far as they are kept.
* `Tree.names_collect`: the names that are collected, in order.
* `Tree.get?_collect`: the text that is collected is that of the first node of the name.
-/

namespace WorkflowLens

namespace Dictionary

theorem mem_names_insertNew {d : Dictionary} {name text other : String} :
    other ∈ (d.insertNew name text).names ↔ other ∈ d.names ∨ other = name := by
  rw [names_insertNew]
  split
  · next hname => exact ⟨Or.inl, fun h => h.elim id fun heq => heq ▸ hname⟩
  · rw [List.mem_append, List.mem_singleton]

/-- The names of a list are those of its dictionary, each in the place where it came first. -/
theorem names_ofListFirst (pairs : List (String × String)) :
    (ofListFirst pairs).names = (pairs.map Prod.fst).eraseDups := by
  induction pairs using List.reverseRecOn with
  | nil => rfl
  | append_singleton pairs pair ih =>
    have hstep : ofListFirst (pairs ++ [pair]) = (ofListFirst pairs).insertNew pair.1 pair.2 := by
      rw [ofListFirst, List.foldl_append]
      rfl
    rw [hstep, names_insertNew, ih, List.map_append, List.map_singleton, List.eraseDups_append]
    by_cases hname : pair.1 ∈ pairs.map Prod.fst
    · have hnone : [pair.1].removeAll (pairs.map Prod.fst) = [] := by simp [List.removeAll, hname]
      rw [if_pos (List.mem_eraseDups.mpr hname), hnone, List.eraseDups_nil, List.append_nil]
    · have hsome : [pair.1].removeAll (pairs.map Prod.fst) = [pair.1] := by
        simp [List.removeAll, hname]
      rw [if_neg fun h => hname (List.mem_eraseDups.mp h), hsome, List.eraseDups_cons,
        List.filter_nil, List.eraseDups_nil]

theorem mem_names_ofListFirst {pairs : List (String × String)} {name : String} :
    name ∈ (ofListFirst pairs).names ↔ name ∈ pairs.map Prod.fst := by
  rw [names_ofListFirst, List.mem_eraseDups]

theorem names_insert (d : Dictionary) (name text : String) :
    (d.insert name text).names = (d.insertNew name text).names := by
  rw [insert]
  split
  · next hname =>
    rw [names_insertNew, if_pos hname, names, names, List.map_map]
    rfl
  · rfl

/-- Which text of a name counts does not matter for the names. -/
theorem names_ofListLast (pairs : List (String × String)) :
    (ofListLast pairs).names = (ofListFirst pairs).names := by
  induction pairs using List.reverseRecOn with
  | nil => rfl
  | append_singleton pairs pair ih =>
    rw [ofListLast, ofListFirst, List.foldl_append, List.foldl_append, List.foldl_cons,
      List.foldl_cons, List.foldl_nil, List.foldl_nil, names_insert, names_insertNew,
      names_insertNew, ← ofListLast, ← ofListFirst, ih]

theorem mem_names_foldl_insertNew (pairs : List (String × String)) {name : String} :
    ∀ d : Dictionary,
      name ∈ (pairs.foldl (fun d (other, text) => d.insertNew other text) d).names ↔
        name ∈ d.names ∨ name ∈ pairs.map Prod.fst := by
  induction pairs with
  | nil => simp
  | cons pair pairs ih =>
    intro d
    rw [List.foldl_cons, ih, mem_names_insertNew, List.map_cons, List.mem_cons, or_assoc]

theorem mem_names_append {d e : Dictionary} {name : String} :
    name ∈ (d.append e).names ↔ name ∈ d.names ∨ name ∈ e.names :=
  mem_names_foldl_insertNew e.entries d

/-- Only an empty list has an empty dictionary. -/
theorem ofListFirst_eq_empty_iff {pairs : List (String × String)} :
    ofListFirst pairs = empty ↔ pairs = [] := by
  refine ⟨fun h => List.eq_nil_iff_forall_not_mem.mpr fun pair hpair => ?_, ?_⟩
  · have hmem := mem_names_ofListFirst.mpr (List.mem_map_of_mem (f := Prod.fst) hpair)
    rw [h, names_empty] at hmem
    cases hmem
  · rintro rfl
    rfl

/-! ## Texts -/

theorem mem_names_iff {d : Dictionary} {name : String} :
    name ∈ d.names ↔ ∃ text, d.get? name = some text := by
  rw [names, get?, ← Option.isSome_iff_exists, ← not_iff_not, Bool.not_eq_true,
    Option.isSome_eq_false_iff, Option.isNone_iff_eq_none, List.lookup_eq_none_iff, List.mem_map]
  simp only [bne_iff_ne, ne_eq, not_exists, not_and]
  exact forall₂_congr fun pair _ => not_congr eq_comm

theorem get?_insertNew (d : Dictionary) (name text other : String) :
    (d.insertNew name text).get? other = (d.get? other).or ([(name, text)].lookup other) := by
  rw [insertNew]
  split
  · next hname =>
    by_cases hother : other = name
    · obtain ⟨found, hfound⟩ := mem_names_iff.mp hname
      rw [hother, hfound, Option.some_or]
    · rw [List.lookup_cons, beq_false_of_ne hother]
      simp
  · rw [get?, get?, List.lookup_append]

theorem get?_foldl_insertNew (pairs : List (String × String)) (name : String) :
    ∀ d : Dictionary,
      (pairs.foldl (fun d (other, text) => d.insertNew other text) d).get? name
        = (d.get? name).or (pairs.lookup name) := by
  induction pairs with
  | nil => simp
  | cons pair pairs ih =>
    intro d
    rw [List.foldl_cons, ih, get?_insertNew, Option.or_assoc, ← List.lookup_append,
      List.singleton_append]

/-- Of two texts of a name the first counts. -/
theorem get?_ofListFirst (pairs : List (String × String)) (name : String) :
    (ofListFirst pairs).get? name = pairs.lookup name := by
  rw [ofListFirst, get?_foldl_insertNew]
  rfl

end Dictionary

/-- The names that are collected are those of the nodes that are kept, each in the place where it
came first. -/
theorem Tree.names_collect (t : Tree) (field : String) (keep : Nat → Bool)
    (name? : Nat → Option String) (text : Nat → String) :
    (t.collect field keep name? text).names
      = ((((t.nodesWhere Tree.root (t.hasName field)).flatMap t.children).filter keep).filterMap
          name?).eraseDups := by
  rw [collect, Dictionary.names_ofListFirst, List.map_filterMap]
  simp only [Option.map_map, Function.comp_def, Option.map_id']

/-- The text that is collected for a name is that of the first node that is kept and has it. -/
theorem Tree.get?_collect (t : Tree) (field : String) (keep : Nat → Bool)
    (name? : Nat → Option String) (text : Nat → String) (name : String) :
    (t.collect field keep name? text).get? name
      = ((((t.nodesWhere Tree.root (t.hasName field)).flatMap t.children).filter keep).find?
          fun n => name? n == some name).map text := by
  rw [collect, Dictionary.get?_ofListFirst]
  generalize List.filter keep _ = ns
  induction ns with
  | nil => rfl
  | cons n ns ih =>
    rw [List.filterMap_cons, List.find?_cons]
    cases hname : name? n with
    | none => exact ih
    | some other =>
      rw [Option.map_some, List.lookup_cons]
      by_cases hsame : name = other
      · rw [hsame, beq_self_eq_true, beq_self_eq_true]
        rfl
      · rw [beq_false_of_ne hsame, beq_false_of_ne fun h => hsame (Option.some.inj h).symm]
        exact ih

/-! ## The order of the nodes -/

theorem Tree.pairwise_lt_nodesWhere (t : Tree) (n : Nat) (p : Nat → Bool) :
    (t.nodesWhere n p).Pairwise (· < ·) :=
  List.Pairwise.filter _ List.pairwise_lt_range'

/-- A node comes before another one by its parent, or among the children of one parent. -/
def Tree.ComesBefore (t : Tree) (n m : Nat) : Prop :=
  ∃ p q, t.parent? n = some p ∧ t.parent? m = some q ∧ (p < q ∨ p = q ∧ n < m)

namespace Tree.IsPreorder

variable {t : Tree} (h : t.IsPreorder)
include h

theorem mem_nodesWhere_root_iff {p : Nat → Bool} {n : Nat} :
    n ∈ t.nodesWhere root p ↔ n < t.size ∧ p n = true := by
  rw [nodesWhere, h.stop_root, List.mem_filter, List.mem_range'_1]
  simp [root]

/-- **The children of certain nodes are met in order by their parents**, and among the children of
one node in their order. -/
theorem pairwise_flatMap_children (p : Nat → Bool) :
    ((t.nodesWhere root p).flatMap t.children).Pairwise t.ComesBefore := by
  rw [List.pairwise_flatMap]
  constructor
  · intro a ha
    have hsize := (h.mem_nodesWhere_root_iff.mp ha).1
    refine (h.pairwise_lt_children hsize).imp_of_mem fun {n m} hn hm hlt => ?_
    rw [h.mem_children_iff hsize] at hn hm
    exact ⟨a, a, hn, hm, .inr ⟨rfl, hlt⟩⟩
  · refine (t.pairwise_lt_nodesWhere root p).imp_of_mem fun {a b} ha hb hlt n hn m hm => ?_
    rw [h.mem_nodesWhere_root_iff] at ha hb
    rw [h.mem_children_iff ha.1] at hn
    rw [h.mem_children_iff hb.1] at hm
    exact ⟨a, b, hn, hm, .inl hlt⟩

/-- The names that are collected. -/
theorem mem_names_collect_iff {field : String} {keep : Nat → Bool} {name? : Nat → Option String}
    {text : Nat → String} {name : String} :
    name ∈ (t.collect field keep name? text).names ↔
      ∃ container n, t.name? container = some field ∧ t.parent? n = some container ∧
        keep n = true ∧ name? n = some name := by
  rw [collect, Dictionary.mem_names_ofListFirst]
  simp only [List.mem_map, List.mem_filterMap, List.mem_filter, List.mem_flatMap,
    h.mem_nodesWhere_root_iff, Option.map_eq_some_iff, hasName, beq_iff_eq]
  constructor
  · rintro ⟨_, ⟨n, ⟨⟨container, ⟨hsize, hfield⟩, hchild⟩, hkeep⟩, found, hname, rfl⟩, rfl⟩
    exact ⟨container, n, hfield, (h.mem_children_iff hsize).mp hchild, hkeep, hname⟩
  · rintro ⟨container, n, hfield, hparent, hkeep, hname⟩
    have hsize := h.parent_lt_size hparent
    have hchild := (h.mem_children_iff hsize).mpr hparent
    exact ⟨(name, text n), ⟨n, ⟨⟨container, ⟨hsize, hfield⟩, hchild⟩, hkeep⟩, name, hname, rfl⟩,
      rfl⟩

end Tree.IsPreorder

end WorkflowLens
