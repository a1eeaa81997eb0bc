import WorkflowLens.Index.Steps
import WorkflowLens.Proofs.Index.Counterparts

/-!
# Inputs in a block

The inputs that can be written in a block `with` are those of the action that the step uses, in
their order, without the names that are already there.  At a key of the block that key is left
out of what is already there, since it is still being typed; at the block itself no key is.

So it matters which node is asked for, and a node of another decoding is not always found: the
search for a counterpart goes on with the block if no key of the block has a text that matches.

* `Dictionary.entries_foldl_erase`: names are taken away and the others keep their order.
* `Tree.IsInputBlock`: a block `with` in a step that uses an action.
* `Index.usesAround?_eq_some_iff`: the block around a node and its action.
* `Index.mem_writtenNames_block_iff`, `Index.mem_writtenNames_key_iff`: the names already there.
* `Index.actionInputsAt?_eq`: the inputs at a node.
* `Index.counterpart?_cases`: the counterpart of a key of a block is a key of the block, or else
  the block.
-/

namespace WorkflowLens

/-- Taking names away one by one leaves the other entries in their order. -/
theorem Dictionary.entries_foldl_erase (names : List String) : ∀ d : Dictionary,
    (names.foldl erase d).entries = d.entries.filter fun e => decide (e.1 ∉ names) := by
  induction names with
  | nil => simp
  | cons name names ih =>
    intro d
    rw [List.foldl_cons, ih, erase, List.filter_filter]
    refine List.filter_congr fun e _ => ?_
    rw [Bool.eq_iff_iff, Bool.and_eq_true, decide_eq_true_iff, bne_iff_ne, decide_eq_true_iff,
      List.mem_cons, not_or]
    exact and_comm

theorem Dictionary.names_foldl_erase (names : List String) (d : Dictionary) :
    (names.foldl erase d).names = d.names.filter (· ∉ names) := by
  rw [Dictionary.names, entries_foldl_erase, Dictionary.names, List.filter_map]
  rfl

namespace Tree

variable {t : Tree}

/-- A block `with` in a step that uses an action. -/
structure IsInputBlock (t : Tree) (block : Nat) (uses : String) : Prop where
  name_eq : t.name? block = some "with"
  inStep : ∃ step, t.parent? block = some step ∧ t.isStep step = true ∧
    t.childValue? step "uses" = some uses

/-- The node `with` that counts at a node: the node itself, or else its parent. -/
structure IsBlockAt (t : Tree) (n block : Nat) : Prop where
  name_eq : t.name? block = some "with"
  near : block = n ∨ t.name? n ≠ some "with" ∧ t.parent? n = some block

/-- The only node at a location. -/
structure IsOnlyAt (t : Tree) (l : List Step) (n : Nat) : Prop where
  lt_size : n < t.size
  location_eq : t.location n = l
  eq_of_location_eq : ∀ m < t.size, t.location m = l → m = n

/-- A key of a block stands for a node of another tree, and no other key of the block has its
name. -/
def KeepsKey (t : Tree) (block : Nat) (u : Tree) (n : Nat) : Prop :=
  ∃ c, t.parent? c = some block ∧ t.StandsFor c u n ∧
    ∀ m, t.parent? m = some block → t.name? m = u.name? n → m = c

/-- A node with a child has no text. -/
theorem IsLocated.value?_of_parent {text : Text} (h : t.IsLocated text) {n p : Nat}
    (hp : t.parent? n = some p) : t.value? p = none := by
  by_contra hvalue
  have hmem := (h.isPreorder.of_parent hp).2.1
  rw [(h.isLeaf_of_value? hvalue).2.1] at hmem
  cases hmem

end Tree

namespace Index

open WorkflowLens.Tree (StandsFor IsInputBlock IsOnlyAt)

/-! ## The block around a node -/

section written

variable {t : Tree} {block : Nat} {uses : String}

theorem withNode?_eq_some_iff {n : Nat} :
    withNode? t n = some block ↔ t.IsBlockAt n block := by
  by_cases hname : t.name? n = some "with"
  · rw [withNode?, if_pos (Tree.hasName_iff.mpr hname), Option.some.injEq]
    constructor
    · rintro rfl
      exact ⟨hname, .inl rfl⟩
    · rintro ⟨-, hsame | ⟨hother, -⟩⟩
      · exact hsame.symm
      · exact absurd hname hother
  · rw [withNode?, if_neg (mt Tree.hasName_iff.mp hname), Option.filter_eq_some_iff,
      Tree.hasName_iff]
    constructor
    · rintro ⟨hparent, hwith⟩
      exact ⟨hwith, .inr ⟨hname, hparent⟩⟩
    · rintro ⟨hwith, rfl | ⟨-, hparent⟩⟩
      · exact absurd hwith hname
      · exact ⟨hparent, hwith⟩

/-- What is found is the node `with` that counts at a node, if it is in a step that uses an
action. -/
theorem usesAround?_eq_some_iff {n : Nat} :
    usesAround? t n = some (block, uses) ↔ t.IsBlockAt n block ∧ t.IsInputBlock block uses := by
  simp only [usesAround?, Option.bind_eq_some_iff, withNode?_eq_some_iff, Option.filter_eq_some_iff,
    Option.map_eq_some_iff, Prod.mk.injEq]
  constructor
  · rintro ⟨other, hat, step, ⟨hparent, hstep⟩, text, huses, rfl, rfl⟩
    exact ⟨hat, hat.name_eq, step, hparent, hstep, huses⟩
  · rintro ⟨hat, -, step, hparent, hstep, huses⟩
    exact ⟨block, hat, step, ⟨hparent, hstep⟩, uses, huses, rfl, rfl⟩

theorem usesAround?_block (h : t.IsInputBlock block uses) :
    usesAround? t block = some (block, uses) :=
  usesAround?_eq_some_iff.mpr ⟨⟨h.name_eq, .inl rfl⟩, h⟩

theorem usesAround?_key (h : t.IsInputBlock block uses) {n : Nat}
    (hparent : t.parent? n = some block) (hname : t.name? n ≠ some "with") :
    usesAround? t n = some (block, uses) :=
  usesAround?_eq_some_iff.mpr ⟨⟨h.name_eq, .inr ⟨hname, hparent⟩⟩, h⟩

/-- A key that is itself called `with` is taken for a block, and it is not in a step. -/
theorem usesAround?_with (h : t.name? block = some "with") {n : Nat}
    (hparent : t.parent? n = some block) (hname : t.name? n = some "with") :
    usesAround? t n = none := by
  rw [Option.eq_none_iff_forall_ne_some]
  rintro ⟨other, uses⟩ hfound
  obtain ⟨hat, hinput⟩ := usesAround?_eq_some_iff.mp hfound
  obtain rfl : other = n := hat.near.resolve_right fun hkey => hkey.1 hname
  obtain ⟨step, hstepParent, hstep, -⟩ := hinput.inStep
  rw [hparent, Option.some.injEq] at hstepParent
  rw [← hstepParent, Tree.isStep, h] at hstep
  simp at hstep

/-! ## The names already there -/

theorem mem_writtenNames_block_iff (h : t.IsPreorder) (hblock : block < t.size) {name : String} :
    name ∈ writtenNames t block block ↔
      ∃ c, t.parent? c = some block ∧ t.name? c = some name := by
  simp only [writtenNames, bne_self_eq_false, Bool.false_and, Bool.not_false, List.filter_true,
    List.mem_filterMap, h.mem_children_iff hblock]

theorem mem_writtenNames_key_iff (h : t.IsPreorder) {n : Nat} (hparent : t.parent? n = some block)
    {name : String} : name ∈ writtenNames t block n ↔
      ∃ c, t.parent? c = some block ∧ c ≠ n ∧ t.name? c = some name := by
  have hne : n ≠ block := Nat.ne_of_gt (h.parent_lt hparent)
  simp only [writtenNames, bne_iff_ne.mpr hne, Bool.true_and, List.mem_filterMap, List.mem_filter,
    h.mem_children_iff (h.parent_lt_size hparent), Bool.not_eq_true', beq_eq_false_iff_ne,
    and_assoc]

end written

/-! ## The inputs at a node -/

section inputs

variable {m : Type → Type} [Monad m] {ix : Index} (catalog : Catalog m) {t : Tree}
  (htree : ix.tree = some t) {n : Nat}
include htree

theorem actionInputsAt?_eq_none (huses : usesAround? t n = none) :
    ix.actionInputsAt? catalog n = pure none := by
  rw [actionInputsAt?, htree]
  simp only [huses]

/-- The inputs at a node are those of the action, without the names already there. -/
theorem actionInputsAt?_eq [LawfulMonad m] {block : Nat} {uses : String}
    (huses : usesAround? t n = some (block, uses)) :
    ix.actionInputsAt? catalog n
      = (fun inputs => some ((writtenNames t block n).foldl Dictionary.erase inputs))
          <$> catalog.inputs uses := by
  rw [actionInputsAt?, htree]
  simp only [huses]
  rw [bind_pure_comp]

end inputs

/-! ## The counterpart of a key -/

/-- The counterpart of a key of a block is a key of the block, if one stands for it, and else the
block. -/
theorem counterpart?_cases {A B : Tree} {s u : Text} (hA : A.IsLocated s) (hB : B.IsLocated u)
    {ix : Index} (htree : ix.tree = some B) {n p b : Nat} (hp : A.parent? n = some p)
    (hb : B.IsOnlyAt (A.location p) b) :
    (∃ c, B.parent? c = some b ∧ B.StandsFor c A n ∧ ix.counterpart? A n = some c) ∨
      (∀ c, B.parent? c = some b → ¬ B.StandsFor c A n) ∧ ix.counterpart? A n = some b := by
  have hn := Tree.lt_size_of_parent hp
  by_cases hstands : ∃ c, c < B.size ∧ B.StandsFor c A n
  · left
    classical
    -- The search meets the nodes by number, so it finds the least one.
    let c := Nat.find hstands
    obtain ⟨hc, hcstands⟩ : c < B.size ∧ B.StandsFor c A n := Nat.find_spec hstands
    have hbefore : ∀ d < c, ¬ B.StandsFor d A n := fun d hd hdstands =>
      Nat.find_min hstands hd ⟨Nat.lt_trans hd hc, hdstands⟩
    have hl := hcstands.location_eq
    rw [hA.isPreorder.location_of_parent hp, hB.isPreorder.location_eq_append_iff hc] at hl
    obtain ⟨q, hq, hup, -⟩ := hl
    obtain rfl := hb.eq_of_location_eq q (hB.isPreorder.parent_lt_size hq) hup
    refine ⟨c, hq, hcstands, (counterpart?_eq_some_iff hA hB htree hn).mpr ?_⟩
    exact ⟨[], n, A.ancestors n, Tree.IsPreorder.ancestorsOrSelf_eq_cons n,
      ⟨hc, hcstands, hbefore⟩, by simp⟩
  · right
    push Not at hstands
    refine ⟨fun c hparent => hstands c (Tree.lt_size_of_parent hparent),
      (counterpart?_eq_some_iff hA hB htree hn).mpr ?_⟩
    have hway : A.ancestorsOrSelf n = [n] ++ p :: A.ancestors p := by
      rw [hA.isPreorder.ancestorsOrSelf_of_parent hp, Tree.IsPreorder.ancestorsOrSelf_eq_cons p]
      rfl
    have hblock : B.StandsFor b A p := by
      refine ⟨hb.location_eq, fun text htext => ?_⟩
      rw [hA.value?_of_parent hp] at htext
      cases htext
    refine ⟨[n], p, A.ancestors p, hway, ⟨hb.lt_size, hblock, fun d hd hdstands => ?_⟩, ?_⟩
    · exact Nat.ne_of_lt hd
        (hb.eq_of_location_eq d (Nat.lt_trans hd hb.lt_size) hdstands.location_eq)
    · intro a ha
      rw [List.mem_singleton.mp ha]
      exact fun d hd => hstands d hd

end Index

end WorkflowLens
