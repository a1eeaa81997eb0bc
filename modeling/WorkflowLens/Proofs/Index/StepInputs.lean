import WorkflowLens.Proofs.Index.Inputs
import WorkflowLens.Proofs.Index.Scopes
import WorkflowLens.Proofs.Tree.Keys

/-!
# The node that counts for inputs

Whether inputs can be written at a node is read off the node, its parent and the parent of that.
The name `with` is not enough to know a block by, because an action may have an input of that name:
then a node `with` is right inside of another one, and for its own key the inner one counts, which
is in no step.  So there are no inputs at that key, although the outer node is a block, and there
are inputs at the keys beside it.

A block is in a step by the location of its parent, and the action is the text of the first node
`uses` of the step.  A step can have two of them only if the document has two keys with one text.

* `Tree.UsesAction`, `Tree.IsWritten`: the action that the step of a block uses, and the keys that
  are already there.
* `Dictionary.IsRest`: the entries that are left, in their order.
* `Tree.IsPreorder.usesAround?_eq_some_iff`: the search for a block and its action.
* `Index.actionInputsAt?_spec`: when there are inputs at a node, and which.
-/

namespace WorkflowLens

/-- What is left of a dictionary without some of its names: the other entries, with their texts
and in their order. -/
structure Dictionary.IsRest (d left : Dictionary) (gone : String → Prop) : Prop where
  sublist : left.entries.Sublist d.entries
  mem_iff : ∀ name text, (name, text) ∈ left.entries ↔ (name, text) ∈ d.entries ∧ ¬ gone name

theorem Dictionary.isRest_foldl_erase (d : Dictionary) {names : List String}
    {gone : String → Prop} (hgone : ∀ name, name ∈ names ↔ gone name) :
    d.IsRest (names.foldl erase d) gone := by
  refine ⟨?_, fun name text => ?_⟩
  · rw [entries_foldl_erase]
    exact List.filter_sublist
  · rw [entries_foldl_erase, List.mem_filter, decide_eq_true_iff, hgone]

namespace Tree

/-- A node is right inside of a step, and the first node `uses` of the step has a text. -/
def UsesAction (t : Tree) (block : Nat) (uses : String) : Prop :=
  ∃ step c, t.parent? block = some step ∧ IsStepPath (t.location step) ∧
    t.IsFirstNamed step "uses" c ∧ t.value? c = some uses

/-- A name is the key of a child of a block other than node `n`. -/
def IsWritten (t : Tree) (block n : Nat) (name : String) : Prop :=
  ∃ c, t.parent? c = some block ∧ c ≠ n ∧ t.name? c = some name

namespace IsPreorder

variable {t : Tree} (h : t.IsPreorder)
include h

theorem childValue?_eq_some_iff {p : Nat} (hp : p < t.size) {name text : String} :
    t.childValue? p name = some text ↔ ∃ c, t.IsFirstNamed p name c ∧ t.value? c = some text := by
  simp only [childValue?, Option.bind_eq_some_iff, h.child?_eq_some_iff_isFirstNamed hp]

/-- A block is in a step by the location of its parent. -/
theorem isInputBlock_iff {block : Nat} {uses : String} :
    t.IsInputBlock block uses ↔ t.name? block = some "with" ∧ t.UsesAction block uses := by
  constructor
  · rintro ⟨hname, step, hparent, hstep, huses⟩
    have hsize := h.parent_lt_size hparent
    obtain ⟨c, hc, hvalue⟩ := (h.childValue?_eq_some_iff hsize).mp huses
    exact ⟨hname, step, c, hparent, (h.isStep_iff hsize).mp hstep, hc, hvalue⟩
  · rintro ⟨hname, step, c, hparent, hstep, hc, hvalue⟩
    have hsize := h.parent_lt_size hparent
    exact ⟨hname, step, hparent, (h.isStep_iff hsize).mpr hstep,
      (h.childValue?_eq_some_iff hsize).mpr ⟨c, hc, hvalue⟩⟩

theorem usesAround?_eq_some_iff {n block : Nat} {uses : String} :
    Index.usesAround? t n = some (block, uses) ↔
      t.IsBlockAt n block ∧ t.UsesAction block uses := by
  rw [Index.usesAround?_eq_some_iff, h.isInputBlock_iff]
  exact and_congr_right fun hat => and_iff_right hat.name_eq

end IsPreorder

end Tree

namespace Index

variable {t : Tree} (h : t.IsPreorder) {n block : Nat}

include h

/-- At the block itself no key is left out, since a child is not its own parent. -/
theorem mem_writtenNames_iff (hat : t.IsBlockAt n block) (hblock : block < t.size)
    {name : String} : name ∈ writtenNames t block n ↔ t.IsWritten block n name := by
  rcases hat.near with rfl | ⟨-, hparent⟩
  · rw [mem_writtenNames_block_iff h hblock]
    refine exists_congr fun c => and_congr_right fun hparent => ?_
    rw [and_iff_right (Nat.ne_of_gt (h.parent_lt hparent))]
  · exact mem_writtenNames_key_iff h hparent

end Index

/-- **There are inputs at a node exactly if it is a node `with` of a step that uses an action, or is
right inside of one.**  They are what the catalog has for the action, asked once, without the keys
of the block other than the node.  If no key is repeated, there is only one node `uses` to speak
of. -/
theorem Index.actionInputsAt?_spec {t : Tree} {text : Text} (h : t.IsLocated text) {ix : Index}
    (htree : ix.tree = some t) (n : Nat) :
    (∀ {block : Nat} {uses : String}, t.IsBlockAt n block → t.UsesAction block uses →
      ∃ left : Dictionary → Dictionary,
        (∀ d : Dictionary, d.IsRest (left d) (t.IsWritten block n)) ∧
        ∀ {m : Type → Type} [Monad m] [LawfulMonad m] (catalog : Catalog m),
          ix.actionInputsAt? catalog n = (fun inputs => some (left inputs)) <$> catalog.inputs uses)
      ∧ ((¬ ∃ block uses, t.IsBlockAt n block ∧ t.UsesAction block uses) →
        ∀ {m : Type → Type} [Monad m] (catalog : Catalog m),
          ix.actionInputsAt? catalog n = pure none) ∧
      (∀ catalog : Catalog Id, (ix.actionInputsAt? catalog n).run.isSome = true ↔
        ∃ block uses, t.IsBlockAt n block ∧ t.UsesAction block uses) ∧
      (t.HasDistinctKeys → ∀ step c, t.IsFirstNamed step "uses" c ↔
        t.parent? c = some step ∧ t.name? c = some "uses") := by
  have hpre := h.isPreorder
  have hnone : (¬ ∃ block uses, t.IsBlockAt n block ∧ t.UsesAction block uses) →
      usesAround? t n = none := by
    intro hno
    rw [Option.eq_none_iff_forall_ne_some]
    rintro ⟨block, uses⟩ hfound
    exact hno ⟨block, uses, hpre.usesAround?_eq_some_iff.mp hfound⟩
  refine ⟨fun {block uses} hat huses => ?_, fun hno => ?_, fun catalog => ?_,
    fun hkeys step c => ?_⟩
  · have hfound := hpre.usesAround?_eq_some_iff.mpr ⟨hat, huses⟩
    obtain ⟨step, -, hparent, -⟩ := huses
    refine ⟨(writtenNames t block n).foldl Dictionary.erase, fun d =>
      d.isRest_foldl_erase fun name => ?_, fun catalog => actionInputsAt?_eq catalog htree hfound⟩
    exact mem_writtenNames_iff hpre hat (Tree.lt_size_of_parent hparent)
  · exact fun catalog => actionInputsAt?_eq_none catalog htree (hnone hno)
  · by_cases hfound : ∃ block uses, t.IsBlockAt n block ∧ t.UsesAction block uses
    · obtain ⟨block, uses, hboth⟩ := hfound
      rw [actionInputsAt?_eq catalog htree (hpre.usesAround?_eq_some_iff.mpr hboth)]
      exact iff_of_true rfl ⟨block, uses, hboth⟩
    · rw [actionInputsAt?_eq_none catalog htree (hnone hfound)]
      exact iff_of_false Bool.false_ne_true hfound
  · exact hpre.isFirstNamed_iff hkeys

/-- A step of an action with an input called `with`. -/
def nestedWithText : Text :=
  "runs: \x7bsteps: [\x7buses: a, with: \x7bwith: 1, k: 2\x7d\x7d]\x7d".toList

/-- The tree of `nestedWithText`. -/
def nestedWithTree : Tree :=
  ⟨#[⟨none, none, .mapping, none, [1], 0, 8, Span.upTo 0 49⟩,
    ⟨some "runs", none, .mapping, some 0, [2], 0, 8, Span.upTo 0 49⟩,
    ⟨some "steps", none, .sequence, some 1, [3], 0, 8, Span.upTo 7 49⟩,
    ⟨none, none, .mapping, some 2, [4, 5], 0, 8, Span.upTo 15 49⟩,
    ⟨some "uses", some "a", .scalar, some 3, [], 0, 5, Span.upTo 16 25⟩,
    ⟨some "with", none, .mapping, some 3, [6, 7], 1, 8, Span.upTo 25 49⟩,
    ⟨some "with", some "1", .scalar, some 5, [], 0, 7, Span.upTo 32 41⟩,
    ⟨some "k", some "2", .scalar, some 5, [], 1, 8, Span.upTo 41 49⟩]⟩

/-- At the key `k` the input `k` can be written and the input `with` cannot, and at the key `with`
nothing can. -/
theorem actionInputsAt?_nestedWithTree : nestedWithTree.IsLocated nestedWithText ∧
    (Index.mk (some nestedWithTree) .action 0).tree = some nestedWithTree ∧
    nestedWithTree.IsBlockAt 7 5 ∧ nestedWithTree.UsesAction 5 "a" ∧
    (∃ left : Dictionary → Dictionary, (∀ catalog : Catalog Id,
        (Index.mk (some nestedWithTree) .action 0).actionInputsAt? catalog 7
          = pure (some (left (catalog.inputs "a").run))) ∧
      ∀ (d : Dictionary) text, (("k", text) ∈ (left d).entries ↔ ("k", text) ∈ d.entries) ∧
        ("with", text) ∉ (left d).entries) ∧
    (¬ ∃ block uses, nestedWithTree.IsBlockAt 6 block ∧ nestedWithTree.UsesAction block uses) ∧
    nestedWithTree.HasDistinctKeys ∧ nestedWithTree.IsFirstNamed 3 "uses" 4 := by
  have hlocated : nestedWithTree.IsLocated nestedWithText :=
    ⟨.mapping [(.string "runs", .mapping [(.string "steps", .sequence [.mapping
      [(.string "uses", .string "a"), (.string "with", .mapping
        [(.string "with", .string "1"), (.string "k", .string "2")])]])])], _, rfl,
      by decide +kernel⟩
  have hpre := hlocated.isPreorder
  have hkeys : nestedWithTree.HasDistinctKeys := by decide
  obtain ⟨hat, huses⟩ := hpre.usesAround?_eq_some_iff.mp
    (show Index.usesAround? nestedWithTree 7 = some (5, "a") by decide)
  have hk : ¬ nestedWithTree.IsWritten 5 7 "k" := by
    rintro ⟨c, hparent, hne, hname⟩
    exact hne (hpre.eq_of_name?_eq hkeys hparent (by decide : nestedWithTree.parent? 7 = some 5)
      hname (by decide))
  have hwith : nestedWithTree.IsWritten 5 7 "with" := ⟨6, by decide⟩
  have htree : (Index.mk (some nestedWithTree) .action 0).tree = some nestedWithTree := rfl
  have hspec := Index.actionInputsAt?_spec hlocated htree
  obtain ⟨left, hrest, heq⟩ := (hspec 7).1 hat huses
  refine ⟨hlocated, htree, hat, huses, ⟨left, fun catalog => heq catalog, fun d text => ?_⟩, ?_,
    hkeys, ?_⟩
  · rw [(hrest d).mem_iff, (hrest d).mem_iff, and_iff_left hk]
    exact ⟨Iff.rfl, fun hmem => hmem.2 hwith⟩
  · exact ((hspec 6).2.2.1 Catalog.empty).not.mp (by decide)
  · exact ((hspec 7).2.2.2 hkeys 3 4).mpr ⟨by decide, by decide⟩

end WorkflowLens
