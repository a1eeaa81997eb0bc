import WorkflowLens.Proofs.Text.Places
import WorkflowLens.Proofs.Tree.Links
import WorkflowLens.Proofs.Tree.Walk
import WorkflowLens.Tree.Equality

/-!
# Comparing subtrees

Subtrees are compared by walking through both of them in step.  The same comparison can be told
along the links: nodes are equal if they agree and their children are equal in pairs.  The two
ways meet because the numbers of children fix the form of a subtree: as long as the nodes at one
place have as many children as each other, the descendants of the nodes stay at one place too,
which is an induction on two forests at once.

Two texts that continue the same one need not match each other, so equality of nodes is not
transitive.  It is symmetric and reflexive, and it goes through to all descendants.

* `Tree.equal_iff`: equal subtrees have as many nodes, which agree one by one.
* `Forest.sameForm`, `Forest.agrees_of_equal`: forests side by side.
* `IsPreorder.equal_inside`, `IsPreorder.equal_iff_children`: descendants of equal nodes are equal,
  and nodes are compared by their children.
* `Tree.equalAlong`, `IsPreorder.equalAlong_eq`: the comparison along the children, with a short
  cut for a node and itself.
* `Tree.equal_copy`, `Tree.equal_setValue`: copies, and trees in which one value has changed.
* `Tree.equal_spec`: the laws of the comparison.
-/

namespace WorkflowLens

/-! ## Matching values -/

/-- Two texts are the same, or one is a beginning of the other and not empty. -/
def TextsMatch (a b : String) : Prop :=
  a = b ∨ a ≠ "" ∧ b ≠ "" ∧ (a.toList <+: b.toList ∨ b.toList <+: a.toList)

theorem textsMatch_iff {a b : String} : textsMatch a b = true ↔ TextsMatch a b := by
  simp only [textsMatch, TextsMatch, Bool.or_eq_true, Bool.and_eq_true, beq_iff_eq,
    Bool.not_eq_true', String.isEmpty_eq_false_iff, Text.startsWith_iff, ne_eq]
  tauto

theorem textsMatch_comm (a b : String) : textsMatch a b = textsMatch b a := by
  rw [Bool.eq_iff_iff, textsMatch_iff, textsMatch_iff, TextsMatch, TextsMatch, eq_comm,
    and_left_comm, or_comm (a := a.toList <+: b.toList)]

theorem textsMatch_self (a : String) : textsMatch a a = true :=
  textsMatch_iff.mpr (.inl rfl)

/-- A text that is not empty matches every continuation of it. -/
theorem textsMatch_append {a : String} (ha : a ≠ "") (b : String) :
    textsMatch a (a ++ b) = true := by
  have hab : a ++ b ≠ "" := by simp [ha]
  have hbegins : a.toList <+: (a ++ b).toList := by
    rw [String.toList_append]
    exact List.prefix_append _ _
  exact textsMatch_iff.mpr (.inr ⟨ha, hab, .inl hbegins⟩)

-- matching is not transitive
example : textsMatch "ab" "a" = true ∧ textsMatch "a" "ac" = true ∧
    textsMatch "ab" "ac" = false := by decide

/-- Only the empty text matches the empty text. -/
theorem textsMatch_empty {a : String} (ha : a ≠ "") : textsMatch a "" = false := by
  rw [Bool.eq_false_iff, Ne, textsMatch_iff]
  rintro (heq | ⟨-, hne, -⟩)
  · exact ha heq
  · exact hne rfl

theorem valuesMatch_comm (a b : Option String) : valuesMatch a b = valuesMatch b a := by
  cases a <;> cases b <;> simp only [valuesMatch, textsMatch_comm]

theorem valuesMatch_self (a : Option String) : valuesMatch a a = true := by
  cases a <;> simp only [valuesMatch, textsMatch_self]

namespace Node

variable {a b : Node}

theorem agrees_iff : a.agrees b = true ↔ a.name = b.name ∧ valuesMatch a.value b.value = true ∧
    a.children.length = b.children.length := by
  rw [agrees, Bool.and_eq_true, Bool.and_eq_true, beq_iff_eq, beq_iff_eq, and_assoc]

theorem agrees_comm (a b : Node) : a.agrees b = b.agrees a := by
  rw [Bool.eq_iff_iff, agrees_iff, agrees_iff, valuesMatch_comm, eq_comm,
    @eq_comm _ a.children.length]

end Node

namespace Tree

variable {t u : Tree}

/-! ## Running in step -/

theorem runInStep_iff {agree : Node → Node → Bool} {xs ys : List Node} :
    runInStep agree xs ys = true ↔
      xs.length = ys.length ∧ ∀ p ∈ xs.zip ys, agree p.1 p.2 = true := by
  induction xs generalizing ys with
  | nil => cases ys <;> simp [runInStep]
  | cons x xs ih =>
    cases ys with
    | nil => simp [runInStep]
    | cons y ys =>
      rw [runInStep, Bool.and_eq_true, ih, List.zip_cons_cons, List.forall_mem_cons,
        List.length_cons, List.length_cons, Nat.add_right_cancel_iff]
      exact and_left_comm

/-- Two subtrees are equal if they have as many nodes as each other and these agree one by one. -/
theorem equal_iff {n m : Nat} :
    t.equal n u m = true ↔ t.stop n - n = u.stop m - m ∧
      ∀ i < t.stop n - n, (t.node (n + i)).agrees (u.node (m + i)) = true := by
  rw [equal, runInStep_iff, subtree, subtree, List.length_map, List.length_map, List.length_range',
    List.length_range']
  refine and_congr_right fun hsize => ?_
  rw [← hsize, List.range'_eq_map_range, List.range'_eq_map_range, List.map_map, List.map_map,
    List.zip_map']
  simp only [List.mem_map, List.mem_range, forall_exists_index, and_imp, forall_apply_eq_imp_iff₂,
    Function.comp_apply]

theorem equal_comm (n m : Nat) : t.equal n u m = u.equal m t n := by
  rw [Bool.eq_iff_iff, equal_iff, equal_iff, eq_comm]
  refine and_congr_right fun hsize => ?_
  rw [hsize]
  simp only [Node.agrees_comm]

theorem equal_self (n : Nat) : t.equal n t n = true :=
  equal_iff.mpr ⟨rfl, fun _ _ => Node.agrees_iff.mpr ⟨rfl, valuesMatch_self _, rfl⟩⟩

/-! ## The form of a subtree -/

/-- The numbers of children fix the form: forests with as many tops as each other, in which nodes at
one place have as many children as each other, have as many nodes, and their tops are at one place
as well. -/
theorem Forest.sameForm {first : Nat} {parent : Option Nat} {index : Nat} {roots : List Nat}
    {stop : Nat} (h : Forest t first parent index roots stop) :
    ∀ {first' : Nat} {parent' : Option Nat} {index' : Nat} {roots' : List Nat} {stop' : Nat},
    Forest u first' parent' index' roots' stop' → roots.length = roots'.length →
    (∀ i, first + i < stop → first' + i < stop' →
      (t.children (first + i)).length = (u.children (first' + i)).length) →
    stop + first' = stop' + first ∧ ∀ p ∈ roots.zip roots', p.1 + first' = p.2 + first := by
  induction h with
  | nil =>
    intro first' parent' index' roots' stop' h' hlength _
    obtain rfl := List.length_eq_zero_iff.mp hlength.symm
    obtain rfl := h'.stop_eq_of_nil
    exact ⟨Nat.add_comm _ _, by simp⟩
  | @cons first parent index roots stop _ _ inside after ihInside ihAfter =>
    intro first' parent' index' roots' stop' h' hlength hchildren
    cases h' with
    | nil => cases hlength
    | @cons _ _ _ roots' _ _ _ inside' after' =>
      have hin := inside.first_le
      have hout := after.first_le
      have hin' := inside'.first_le
      have hout' := after'.first_le
      have htop : (t.children first).length = (u.children first').length :=
        hchildren 0 (by omega) (by omega)
      have hinside := (ihInside inside' htop fun i hi hi' => by
        have hplace := hchildren (1 + i) (by omega) (by omega)
        rwa [← Nat.add_assoc, ← Nat.add_assoc] at hplace).1
      have hafter := ihAfter after' (Nat.succ.inj hlength) fun i hi hi' => by
        have hplace := hchildren (t.stop first - first + i) (by omega) (by omega)
        rwa [show first + (t.stop first - first + i) = t.stop first + i by omega,
          show first' + (t.stop first - first + i) = u.stop first' + i by omega] at hplace
      refine ⟨by omega, fun p hp => ?_⟩
      rw [List.zip_cons_cons] at hp
      rcases List.mem_cons.mp hp with rfl | hp
      · exact Nat.add_comm _ _
      · have htops := hafter.2 p hp
        omega

/-- Forests of which the tops are equal in pairs run in step. -/
theorem Forest.agrees_of_equal {first : Nat} {parent : Option Nat} {index : Nat} {roots : List Nat}
    {stop : Nat} (h : Forest t first parent index roots stop) :
    ∀ {first' : Nat} {parent' : Option Nat} {index' : Nat} {roots' : List Nat} {stop' : Nat},
    Forest u first' parent' index' roots' stop' → roots.length = roots'.length →
    (∀ p ∈ roots.zip roots', t.equal p.1 u p.2 = true) →
    stop + first' = stop' + first ∧
      ∀ i, first + i < stop → (t.node (first + i)).agrees (u.node (first' + i)) = true := by
  induction h with
  | nil =>
    intro first' parent' index' roots' stop' h' hlength _
    obtain rfl := List.length_eq_zero_iff.mp hlength.symm
    obtain rfl := h'.stop_eq_of_nil
    exact ⟨Nat.add_comm _ _, fun i hi => by omega⟩
  | @cons first parent index roots stop _ _ inside after ihInside ihAfter =>
    intro first' parent' index' roots' stop' h' hlength hequal
    cases h' with
    | nil => cases hlength
    | @cons _ _ _ roots' _ _ _ inside' after' =>
      have hin := inside.first_le
      have hin' := inside'.first_le
      rw [List.zip_cons_cons, List.forall_mem_cons] at hequal
      have hfirst : t.equal first u first' = true := hequal.1
      obtain ⟨hsize, htop⟩ := equal_iff.mp hfirst
      obtain ⟨hstop, hrest⟩ := ihAfter after' (Nat.succ.inj hlength) hequal.2
      refine ⟨by omega, fun i hi => ?_⟩
      rcases Nat.lt_or_ge i (t.stop first - first) with hlt | hge
      · exact htop i hlt
      · have hplace := hrest (i - (t.stop first - first)) (by omega)
        rwa [show t.stop first + (i - (t.stop first - first)) = first + i by omega,
          show u.stop first' + (i - (t.stop first - first)) = first' + i by omega] at hplace

namespace IsPreorder

section twoTrees

variable (ht : t.IsPreorder) (hu : u.IsPreorder) {n m : Nat} (hn : n < t.size) (hm : m < u.size)
include ht hu hn hm

/-- **The descendants of equal nodes are equal one by one.** -/
theorem equal_inside (h : t.equal n u m = true) {i : Nat} (hi : i < t.stop n - n) :
    t.equal (n + i) u (m + i) = true := by
  obtain ⟨hsize, hagrees⟩ := equal_iff.mp h
  have hle := ht.stop_le_size hn
  have hle' := hu.stop_le_size hm
  have hinside := ht.stop_le_stop_of_inside hn (Nat.le_add_right n i) (by omega)
  have hlt := ht.lt_stop (n := n + i) (by omega)
  have hlt' := hu.lt_stop (n := m + i) (by omega)
  have hchildren : ∀ j, n + i + j < t.stop (n + i) →
      (t.children (n + i + j)).length = (u.children (m + i + j)).length := by
    intro j hj
    have hplace := (Node.agrees_iff.mp (hagrees (i + j) (by omega))).2.2
    rwa [← Nat.add_assoc, ← Nat.add_assoc] at hplace
  have hform := (ht.forest_children (n := n + i) (by omega)).sameForm
    (hu.forest_children (n := m + i) (by omega)) (hchildren 0 (by omega)) fun j hj _ => by
      have hplace := hchildren (1 + j) (by omega)
      rwa [← Nat.add_assoc, ← Nat.add_assoc] at hplace
  refine equal_iff.mpr ⟨by omega, fun j hj => ?_⟩
  have hplace := hagrees (i + j) (by omega)
  rwa [← Nat.add_assoc, ← Nat.add_assoc] at hplace

/-- Nodes are equal if they agree and their children are equal in pairs. -/
theorem equal_iff_children : t.equal n u m = true ↔ (t.node n).agrees (u.node m) = true ∧
    ∀ p ∈ (t.children n).zip (u.children m), t.equal p.1 u p.2 = true := by
  have hinner := ht.forest_children hn
  have hinner' := hu.forest_children hm
  have hlt := ht.lt_stop hn
  have hlt' := hu.lt_stop hm
  constructor
  · intro h
    obtain ⟨hsize, hagrees⟩ := equal_iff.mp h
    have htop : (t.node n).agrees (u.node m) = true := hagrees 0 (by omega)
    refine ⟨htop, fun p hp => ?_⟩
    have hplace := (hinner.sameForm hinner' (Node.agrees_iff.mp htop).2.2 fun i hi _ => by
      have hchildren := (Node.agrees_iff.mp (hagrees (1 + i) (by omega))).2.2
      rwa [← Nat.add_assoc, ← Nat.add_assoc] at hchildren).2 p hp
    have hchild := hinner.mem_roots (List.of_mem_zip hp).1
    have hequal := ht.equal_inside hu hn hm h (i := p.1 - n) (by omega)
    rwa [show n + (p.1 - n) = p.1 by omega, show m + (p.1 - n) = p.2 by omega] at hequal
  · rintro ⟨htop, hequal⟩
    obtain ⟨hstop, hinside⟩ :=
      hinner.agrees_of_equal hinner' (Node.agrees_iff.mp htop).2.2 hequal
    refine equal_iff.mpr ⟨by omega, fun i hi => ?_⟩
    cases i with
    | zero => exact htop
    | succ i =>
      have hplace := hinside i (by omega)
      rwa [Nat.add_assoc, Nat.add_assoc, Nat.add_comm 1] at hplace

/-- The walks through equal subtrees meet equal nodes, place by place. -/
theorem equal_walk (h : t.equal n u m = true) : (t.walk n).length = (u.walk m).length ∧
    ∀ i a b : Nat, (t.walk n)[i]? = some a → (u.walk m)[i]? = some b → t.equal a u b = true := by
  have hsize := (equal_iff.mp h).1
  rw [ht.walk_eq hn, hu.walk_eq hm, List.length_range', List.length_range']
  refine ⟨hsize, fun i a b ha hb => ?_⟩
  obtain ⟨hi, rfl⟩ := List.getElem?_eq_some_iff.mp ha
  obtain ⟨-, rfl⟩ := List.getElem?_eq_some_iff.mp hb
  rw [List.length_range'] at hi
  rw [List.getElem_range', List.getElem_range', Nat.one_mul]
  exact ht.equal_inside hu hn hm h hi

end twoTrees

end IsPreorder

/-! ## The comparison along the children -/

/-- The comparison that goes along the children, at most `depth` deep.  If the two trees are the
same one, a node is equal to itself without a look at it. -/
def equalAlong (t u : Tree) (isSame : Bool) : (depth : Nat) → Nat → Nat → Bool
  | 0, _, _ => false
  | depth + 1, n, m => (isSame && n == m) || (t.node n).agrees (u.node m) &&
      ((t.children n).zip (u.children m)).all fun p => t.equalAlong u isSame depth p.1 p.2

/-- **The comparison along the children finds what the walk in step finds**, with the short cut as
without it. -/
theorem IsPreorder.equalAlong_eq (ht : t.IsPreorder) (hu : u.IsPreorder) {isSame : Bool}
    (hsame : isSame = true → t = u) : ∀ depth n m, n < t.size → m < u.size →
      t.stop n - n ≤ depth → t.equalAlong u isSame depth n m = t.equal n u m := by
  intro depth
  induction depth with
  | zero =>
    intro n m hn hm hdepth
    have hlt := ht.lt_stop hn
    omega
  | succ depth ih =>
    intro n m hn hm hdepth
    have hinner := ht.forest_children hn
    have hinner' := hu.forest_children hm
    have hle := ht.stop_le_size hn
    have hle' := hu.stop_le_size hm
    have hchildren : (∀ p ∈ (t.children n).zip (u.children m),
        t.equalAlong u isSame depth p.1 p.2 = true) ↔
        ∀ p ∈ (t.children n).zip (u.children m), t.equal p.1 u p.2 = true := by
      refine forall₂_congr fun p hp => ?_
      have hchild := hinner.mem_roots (List.of_mem_zip hp).1
      have hchild' := hinner'.mem_roots (List.of_mem_zip hp).2
      have hinside := ht.stop_le_stop_of_inside (m := p.1) hn (by omega) hchild.2.1
      rw [ih p.1 p.2 (by omega) (by omega) (by omega)]
    rw [Bool.eq_iff_iff, equalAlong, Bool.or_eq_true, Bool.and_eq_true, Bool.and_eq_true,
      List.all_eq_true, hchildren, ← ht.equal_iff_children hu hn hm, beq_iff_eq]
    refine or_iff_right_of_imp ?_
    rintro ⟨htrees, rfl⟩
    obtain rfl := hsame htrees
    exact equal_self n

/-! ## Copies -/

/-- The trees of one value have as many nodes as each other, and each node equals its copy. -/
theorem equal_copy {text text' : Text} (ht : decode text = .ok t) (hu : decode text' = .ok u)
    (hvalue : Yaml.Value.ofText text = Yaml.Value.ofText text') :
    t.size = u.size ∧ ∀ n, t.equal n u n = true := by
  obtain ⟨v, starts, hv, rfl⟩ := exists_eq_withStarts_of_decode ht
  obtain ⟨w, starts', hw, rfl⟩ := exists_eq_withStarts_of_decode hu
  obtain rfl : v = w := Except.ok.inj (hv.symm.trans (hvalue.trans hw))
  rw [size_withStarts, size_withStarts]
  refine ⟨rfl, fun n => equal_iff.mpr ?_⟩
  rw [stop_withStarts, stop_withStarts]
  refine ⟨rfl, fun i _ => ?_⟩
  obtain ⟨s, hs, -⟩ := node_withStarts (ofOutline (Outline.ofValue v)) text.byteSize starts (n + i)
  obtain ⟨s', hs', -⟩ :=
    node_withStarts (ofOutline (Outline.ofValue v)) text'.byteSize starts' (n + i)
  rw [hs, hs']
  exact Node.agrees_iff.mpr ⟨rfl, valuesMatch_self _, rfl⟩

/-! ## Values that change -/

/-- The tree in which one node has another value. -/
def setValue (t : Tree) (n : Nat) (value : Option String) : Tree :=
  ⟨t.nodes.modify n fun x => { x with value := value }⟩

section setValue

variable {n : Nat} {value : Option String}

theorem node_setValue_self (hn : n < t.size) :
    (t.setValue n value).node n = { t.node n with value := value } := by
  rw [node, setValue, Array.getElem?_modify, if_pos rfl, node, Array.getElem?_eq_getElem hn]
  rfl

theorem node_setValue_of_ne {m : Nat} (h : n ≠ m) : (t.setValue n value).node m = t.node m := by
  rw [node, setValue, Array.getElem?_modify, if_neg h, node]

theorem stop_setValue (hn : n < t.size) (m : Nat) : (t.setValue n value).stop m = t.stop m := by
  by_cases h : n = m
  · subst h
    rw [stop, node_setValue_self hn, stop]
  · rw [stop, node_setValue_of_ne h, stop]

/-- Of a node and what becomes of it when a value in its subtree changes, only the two values
matter. -/
theorem equal_setValue {k : Nat} (hn : n < t.size) (hkn : k ≤ n) (hstop : n < t.stop k) :
    t.equal k (t.setValue n value) k = valuesMatch (t.value? n) value := by
  rw [Bool.eq_iff_iff, equal_iff, stop_setValue hn]
  constructor
  · rintro ⟨-, hagrees⟩
    have hplace := (Node.agrees_iff.mp (hagrees (n - k) (by omega))).2.1
    rw [show k + (n - k) = n by omega, node_setValue_self hn] at hplace
    exact hplace
  · intro hmatch
    refine ⟨rfl, fun i _ => ?_⟩
    by_cases hplace : n = k + i
    · subst hplace
      rw [node_setValue_self hn]
      exact Node.agrees_iff.mpr ⟨rfl, hmatch, rfl⟩
    · rw [node_setValue_of_ne hplace]
      exact Node.agrees_iff.mpr ⟨rfl, valuesMatch_self _, rfl⟩

end setValue

/-! ## The laws of the comparison -/

/-- **The comparison of nodes is a symmetric and reflexive matching of whole subtrees.**  It is the
same along the children as in a walk, with the short cut for a node and itself as without it; a node
equals itself and its copy in another tree of the same value; the subtrees of equal nodes are
equal node by node; and a root stays equal when a value is continued, but not when it is emptied. -/
theorem equal_spec {text text' : Text} (ht : decode text = .ok t) (hu : decode text' = .ok u) :
    (∀ n < t.size, ∀ m < u.size,
      (t.equal n u m = true ↔ (t.node n).agrees (u.node m) = true ∧
        ∀ p ∈ (t.children n).zip (u.children m), t.equal p.1 u p.2 = true) ∧
      (∀ isSame : Bool, (isSame = true → t = u) →
        t.equalAlong u isSame t.size n m = t.equal n u m) ∧
      (t.equal n u m = true ↔ u.equal m t n = true) ∧
      (t.equal n u m = true → (t.walk n).length = (u.walk m).length ∧
        ∀ i a b : Nat, (t.walk n)[i]? = some a → (u.walk m)[i]? = some b →
          t.equal a u b = true)) ∧
    (∀ n < t.size, t.equal n t n = true) ∧
    (Yaml.Value.ofText text = Yaml.Value.ofText text' →
      t.size = u.size ∧ ∀ n < t.size, t.equal n u n = true) ∧
    ∀ n < t.size, ∀ value, t.value? n = some value → value ≠ "" →
      (∀ more, t.equal root (t.setValue n (some (value ++ more))) root = true) ∧
      t.equal root (t.setValue n (some "")) root = false ∧
      t.equal root (t.setValue n none) root = false := by
  have htorder := (isLocated_of_decode ht).isPreorder
  have huorder := (isLocated_of_decode hu).isPreorder
  refine ⟨fun n hn m hm => ⟨htorder.equal_iff_children huorder hn hm, fun isSame hsame => ?_, ?_,
    htorder.equal_walk huorder hn hm⟩, fun n _ => equal_self n, fun hvalue => ?_,
    fun n hn value hvalue hne => ?_⟩
  · have hle := htorder.stop_le_size hn
    exact htorder.equalAlong_eq huorder hsame t.size n m hn hm (by omega)
  · rw [equal_comm]
  · have hcopy := equal_copy ht hu hvalue
    exact ⟨hcopy.1, fun n _ => hcopy.2 n⟩
  · have hchange : ∀ other, t.equal root (t.setValue n other) root
        = valuesMatch (some value) other := by
      intro other
      rw [← hvalue]
      exact equal_setValue hn (Nat.zero_le n) (by rwa [htorder.stop_root])
    refine ⟨fun more => ?_, ?_, ?_⟩
    · rw [hchange, valuesMatch, textsMatch_append hne]
    · rw [hchange, valuesMatch, textsMatch_empty hne]
    · exact hchange none

/-- A mapping with one entry. -/
def commandText : Text := "run: make\n".toList

/-- The same mapping below a comment. -/
def notedText : Text := "# build\nrun: make\n".toList

/-- The tree of `commandText`. -/
def commandTree : Tree :=
  ⟨#[⟨none, none, .mapping, none, [1], 0, 2, Span.upTo 0 10⟩,
    ⟨some "run", some "make", .scalar, some 0, [], 0, 2, Span.upTo 0 10⟩]⟩

/-- The tree of `notedText`, where the entry starts below the comment. -/
def notedTree : Tree :=
  ⟨#[⟨none, none, .mapping, none, [1], 0, 2, Span.upTo 0 18⟩,
    ⟨some "run", some "make", .scalar, some 0, [], 0, 2, Span.upTo 8 18⟩]⟩

/-- The two trees are not the same, but equal, and stay so while the command is being typed. -/
theorem equal_commandTree_notedTree :
    decode commandText = .ok commandTree ∧ decode notedText = .ok notedTree ∧
      commandTree ≠ notedTree ∧ Yaml.Value.ofText commandText = Yaml.Value.ofText notedText ∧
      commandTree.equal root notedTree root = true ∧
      notedTree.equal root commandTree root = true ∧
      (commandTree.walk root).length = (notedTree.walk root).length ∧
      commandTree.equal 1 notedTree 1 = true ∧
      commandTree.equalAlong notedTree false commandTree.size root root = true ∧
      commandTree.value? 1 = some "make" ∧
      commandTree.equal root (commandTree.setValue 1 (some "make all")) root = true ∧
      commandTree.equal root (commandTree.setValue 1 (some "")) root = false := by
  have hcommand : decode commandText = .ok commandTree := by decide +kernel
  have hnoted : decode notedText = .ok notedTree := by decide +kernel
  have htokens : Yaml.Token.ofText commandText = Yaml.Token.ofText notedText := by decide +kernel
  have hvalue : Yaml.Value.ofText commandText = Yaml.Value.ofText notedText := by
    rw [Yaml.Value.ofText, htokens, Yaml.Value.ofText]
  have hroot : root < commandTree.size := by decide
  have hroot' : root < notedTree.size := by decide
  obtain ⟨hpair, -, hcopy, hchange⟩ := equal_spec hcommand hnoted
  obtain ⟨-, hshort, hcomm, hwalk⟩ := hpair root hroot root hroot'
  have hequal := (hcopy hvalue).2 root hroot
  obtain ⟨hlength, hinside⟩ := hwalk hequal
  obtain ⟨hmore, hempty, -⟩ := hchange 1 (by decide) "make" rfl (by decide)
  exact ⟨hcommand, hnoted, by decide, hvalue, hequal, hcomm.mp hequal, hlength,
    hinside 1 1 1 rfl rfl, (hshort false Bool.noConfusion).trans hequal, rfl, hmore " all", hempty⟩

end Tree

end WorkflowLens
