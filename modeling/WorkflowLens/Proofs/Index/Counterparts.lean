import WorkflowLens.Index.Basic
import WorkflowLens.Proofs.Tree.Comparison
import WorkflowLens.Proofs.Tree.Keys

/-!
# Counterparts

A document is decoded twice, up to the caret's line and as a whole, and a node of one tree has to
be found in the other one.  It is looked for by its location, and a text must match as well, for
the text at the caret may be a beginning of what it is in the whole document.  If there is no such
node, the parent is looked for, and so on; the root is always found if it is a collection.

The search runs over nodes inside of a search over ancestors.  Here it is said once what it finds,
`Index.counterpart?_eq_some_iff`, and only what a match is goes back to the comparison of subtrees:
a node with a text has nothing below it, so comparing subtrees compares two texts.

* `Tree.StandsFor`: a node of one tree stands for a node of another one.
* `Index.standsFor_iff`: the comparison decides this.
* `Index.counterpart?_spec`: what is found is the first node that stands for the nearest ancestor
  for which there is one, and in a tree without repeated keys every node is found itself.
-/

namespace WorkflowLens

namespace Tree

/-- Node `c` of one tree stands for node `m` of another: it has the same location, and if `m` has
a text, a text that matches. -/
structure StandsFor (t : Tree) (c : Nat) (u : Tree) (m : Nat) : Prop where
  location_eq : t.location c = u.location m
  textsMatch : ∀ text, u.value? m = some text → ∃ other, t.value? c = some other ∧
    TextsMatch other text

variable {t u : Tree}

/-- Nodes at one location have the same name. -/
theorem IsLocated.name?_eq_of_location_eq {text text' : Text} (ht : t.IsLocated text)
    (hu : u.IsLocated text') {c m : Nat} (hc : c < t.size) (hm : m < u.size)
    (hl : t.location c = u.location m) : t.name? c = u.name? m := by
  by_cases hroot : m = root
  · subst hroot
    rw [hu.isPreorder.location_root, ht.isPreorder.location_eq_nil_iff hc] at hl
    rw [hl, ht.name?_root, hu.name?_root]
  · obtain ⟨q, hq, -⟩ := hu.isPreorder.exists_parent hm hroot
    rw [hu.isPreorder.location_of_parent hq, ht.isPreorder.location_eq_append_iff hc] at hl
    obtain ⟨p, -, -, hstep⟩ := hl
    cases hname : u.name? m with
    | some name =>
      rw [step_eq_key_iff.mpr hname] at hstep
      exact step_eq_key_iff.mp hstep
    | none =>
      rw [step_eq_item_iff.mpr ⟨hname, rfl⟩] at hstep
      exact (step_eq_item_iff.mp hstep).1

/-! ## Comparing subtrees -/

/-- A node equals one with a text exactly if its text matches, given the same name. -/
theorem IsLocated.equal_iff_of_value? {s s' : Text} (ht : t.IsLocated s) (hu : u.IsLocated s')
    {c m : Nat} (hc : c < t.size) (hname : t.name? c = u.name? m) {text : String}
    (hvalue : u.value? m = some text) :
    t.equal c u m = true ↔ ∃ other, t.value? c = some other ∧ TextsMatch other text := by
  have hleaf := hu.isLeaf_of_value? (hvalue ▸ Option.some_ne_none text)
  have hlt := ht.isPreorder.lt_stop hc
  -- nothing is below a node with a text, so only the two nodes are compared
  rw [equal_iff, hleaf.2.2, Nat.add_sub_cancel_left]
  constructor
  · rintro ⟨-, hagrees⟩
    have hvalues : valuesMatch (t.value? c) (u.value? m) = true :=
      (Node.agrees_iff.mp (hagrees 0 (by omega))).2.1
    rw [hvalue] at hvalues
    cases hother : t.value? c with
    | none =>
      rw [hother] at hvalues
      cases hvalues
    | some other =>
      rw [hother] at hvalues
      exact ⟨other, rfl, textsMatch_iff.mp hvalues⟩
  · rintro ⟨other, hother, hmatch⟩
    have hcleaf := ht.isLeaf_of_value? (hother ▸ Option.some_ne_none other)
    have hvalues : valuesMatch (t.value? c) (u.value? m) = true := by
      rw [hother, hvalue]
      exact textsMatch_iff.mpr hmatch
    have hchildren : (t.children c).length = (u.children m).length := by
      rw [hcleaf.2.1, hleaf.2.1]
    refine ⟨by rw [hcleaf.2.2, Nat.add_sub_cancel_left], fun i hi => ?_⟩
    obtain rfl : i = 0 := by
      rw [hcleaf.2.2] at hi
      omega
    exact Node.agrees_iff.mpr ⟨hname, hvalues, hchildren⟩

end Tree

namespace Index

open WorkflowLens.Tree (StandsFor)

/-- The comparison decides whether a node stands for another one. -/
theorem standsFor_iff {t u : Tree} {s s' : Text} (ht : t.IsLocated s) (hu : u.IsLocated s')
    {c m : Nat} (hc : c < t.size) (hm : m < u.size) :
    standsFor t c u m = true ↔ t.StandsFor c u m := by
  rw [standsFor, Bool.and_eq_true, beq_iff_eq]
  constructor
  · rintro ⟨hl, hsame⟩
    refine ⟨hl, fun text hvalue => ?_⟩
    have hleaf := (hu.isLeaf_of_value? (by rw [hvalue]; exact Option.some_ne_none text)).1
    simp only [hleaf, hvalue, bne_self_eq_false, Option.isNone_some, Bool.or_self,
      Bool.false_or] at hsame
    exact (ht.equal_iff_of_value? hu hc (ht.name?_eq_of_location_eq hu hc hm hl) hvalue).mp hsame
  · rintro ⟨hl, hmatch⟩
    refine ⟨hl, ?_⟩
    cases hvalue : u.value? m with
    | none => simp
    | some text =>
      have hname := ht.name?_eq_of_location_eq hu hc hm hl
      rw [(ht.equal_iff_of_value? hu hc hname hvalue).mpr (hmatch text hvalue), Bool.or_true]

/-- Standing for a node is having its location and, if it is a scalar with a text, being equal
to it. -/
theorem standsFor_iff_equal {t u : Tree} {s s' : Text} (ht : t.IsLocated s) (hu : u.IsLocated s')
    {c m : Nat} (hc : c < t.size) (hm : m < u.size) :
    t.StandsFor c u m ↔ t.location c = u.location m ∧
      (u.shape m = .scalar → u.value? m ≠ none → t.equal c u m = true) := by
  rw [← standsFor_iff ht hu hc hm, standsFor]
  simp only [Bool.and_eq_true, Bool.or_eq_true, beq_iff_eq, bne_iff_ne, Option.isNone_iff_eq_none]
  tauto

/-! ## The search -/

section counterpart?

variable {A B : Tree} {s u : Text} (hA : A.IsLocated s) (hB : B.IsLocated u) {ix : Index}
  (htree : ix.tree = some B) {n : Nat} (hn : n < A.size)
include hA hB htree hn

/-- What the search finds: on the way up from the node the first one that some node stands for,
and for that one the first node that does. -/
theorem counterpart?_eq_some_iff {c : Nat} :
    ix.counterpart? A n = some c ↔ ∃ below m above, A.ancestorsOrSelf n = below ++ m :: above ∧
      (c < B.size ∧ B.StandsFor c A m ∧ ∀ d < c, ¬ B.StandsFor d A m) ∧
      ∀ a ∈ below, ∀ d < B.size, ¬ B.StandsFor d A a := by
  have hsize : ∀ a ∈ A.ancestorsOrSelf n, a < A.size := fun a ha =>
    hA.isPreorder.lt_size_of_mem_ancestorsOrSelf hn ha
  have hsome : ∀ a < A.size, ((List.range B.size).find? fun d => standsFor B d A a) = some c ↔
      c < B.size ∧ B.StandsFor c A a ∧ ∀ d < c, ¬ B.StandsFor d A a := by
    intro a ha
    rw [List.find?_range_eq_some, List.mem_range]
    constructor
    · rintro ⟨hc, hlt, hbefore⟩
      refine ⟨hlt, (standsFor_iff hB hA hlt ha).mp hc, fun d hd hstands => ?_⟩
      have hno := hbefore d hd
      rw [(standsFor_iff hB hA (Nat.lt_trans hd hlt) ha).mpr hstands] at hno
      cases hno
    · rintro ⟨hlt, hc, hbefore⟩
      refine ⟨(standsFor_iff hB hA hlt ha).mpr hc, hlt, fun d hd => ?_⟩
      rw [Bool.not_eq_true', ← Bool.not_eq_true, standsFor_iff hB hA (Nat.lt_trans hd hlt) ha]
      exact hbefore d hd
  have hnone : ∀ a < A.size, ((List.range B.size).find? fun d => standsFor B d A a) = none ↔
      ∀ d < B.size, ¬ B.StandsFor d A a := by
    intro a ha
    simp only [List.find?_eq_none, List.mem_range]
    exact forall₂_congr fun d hd => not_congr (standsFor_iff hB hA hd ha)
  rw [counterpart?, inTree?, htree, Option.bind_some, List.findSome?_eq_some_iff]
  refine exists_congr fun below => exists_congr fun m => exists_congr fun above =>
    and_congr_right fun hway => ?_
  have hmem : ∀ a ∈ below, a < A.size := fun a ha =>
    hsize a (by rw [hway]; exact List.mem_append_left _ ha)
  rw [hsome m (hsize m (by rw [hway]; exact List.mem_append_right _ (List.mem_cons_self ..)))]
  exact and_congr_right' (forall₂_congr fun a ha => hnone a (hmem a ha))

/-- The search finds a node if the root is a collection, for the root at least is found. -/
theorem exists_counterpart?_eq (hroot : A.shape Tree.root ≠ .scalar) :
    ∃ c, ix.counterpart? A n = some c := by
  have hvalue : A.value? Tree.root = none := by
    by_contra hvalue
    exact hroot (hA.isLeaf_of_value? hvalue).1
  have hstands : B.StandsFor Tree.root A Tree.root := by
    refine ⟨by rw [hA.isPreorder.location_root, hB.isPreorder.location_root], fun text htext => ?_⟩
    rw [hvalue] at htext
    cases htext
  have hmem : Tree.root ∈ A.ancestorsOrSelf n := by
    rw [hA.isPreorder.mem_ancestorsOrSelf_iff hn, hA.isPreorder.stop_root]
    exact ⟨Nat.zero_le n, hn⟩
  cases hfound : ix.counterpart? A n with
  | some c => exact ⟨c, rfl⟩
  | none =>
    rw [counterpart?, inTree?, htree, Option.bind_some, List.findSome?_eq_none_iff] at hfound
    have hno := List.find?_eq_none.mp (hfound Tree.root hmem) Tree.root
      (List.mem_range.mpr hB.isPreorder.size_pos)
    exact absurd ((standsFor_iff hB hA hB.isPreorder.size_pos hA.isPreorder.size_pos).mpr hstands)
      hno

end counterpart?

/-- In a tree without repeated keys every node is found itself. -/
theorem counterpart?_self {t : Tree} {text : Text} (h : t.IsLocated text)
    (hkeys : t.HasDistinctKeys) {ix : Index} (htree : ix.tree = some t) {n : Nat}
    (hn : n < t.size) : ix.counterpart? t n = some n := by
  refine (counterpart?_eq_some_iff h h htree hn).mpr
    ⟨[], n, t.ancestors n, Tree.IsPreorder.ancestorsOrSelf_eq_cons n, ⟨hn, ?_, ?_⟩, by simp⟩
  · exact ⟨rfl, fun text htext => ⟨text, htext, .inl rfl⟩⟩
  · intro d hd hstands
    have hsame := h.isPreorder.eq_of_location_eq hkeys (Nat.lt_trans hd hn) hn hstands.location_eq
    exact Nat.ne_of_lt hd hsame

/-- **What the search for a counterpart finds.**  If the root is a collection, something is found
for every node: the first node that stands for the nearest one on the way up for which there is
any, which means that it has the same location and equals it if that one is a scalar with a text.
So the location found is a prefix of the location asked for.  In a tree without repeated keys every
node is its own counterpart. -/
theorem counterpart?_spec {A B : Tree} {s u : Text} (hA : A.IsLocated s) (hB : B.IsLocated u)
    {n : Nat} (hn : n < A.size) :
    (∀ c < B.size, ∀ m < A.size, B.StandsFor c A m ↔ B.location c = A.location m ∧
      (A.shape m = .scalar → A.value? m ≠ none → B.equal c A m = true)) ∧
    (∀ ix : Index, ix.tree = some B → A.shape Tree.root ≠ .scalar →
      ∃ c m, ix.counterpart? A n = some c ∧ c < B.size ∧ m ∈ A.ancestorsOrSelf n ∧
        B.StandsFor c A m ∧ (∀ d < c, ¬ B.StandsFor d A m) ∧
        (∀ a ∈ A.ancestorsOrSelf n, ∀ d < B.size, B.StandsFor d A a → a ∈ A.ancestorsOrSelf m) ∧
        B.location c <+: A.location n) ∧
    (∀ ix : Index, ix.tree = some A → A.HasDistinctKeys → ix.counterpart? A n = some n) := by
  refine ⟨fun c hc m hm => standsFor_iff_equal hB hA hc hm, fun ix htree hroot => ?_,
    fun ix htree hkeys => counterpart?_self hA hkeys htree hn⟩
  obtain ⟨c, hc⟩ := exists_counterpart?_eq hA hB htree hn hroot
  obtain ⟨below, m, above, hway, ⟨hsize, hstands, hfirst⟩, hbelow⟩ :=
    (counterpart?_eq_some_iff hA hB htree hn).mp hc
  have hmem : m ∈ A.ancestorsOrSelf n := by
    rw [hway]
    exact List.mem_append_right _ (List.mem_cons_self ..)
  refine ⟨c, m, hc, hsize, hmem, hstands, hfirst, fun a ha d hd had => ?_, ?_⟩
  · rw [hA.isPreorder.ancestorsOrSelf_of_append hway]
    rw [hway] at ha
    rcases List.mem_append.mp ha with hnear | hfar
    · exact absurd had (hbelow a hnear d hd)
    · exact hfar
  · rw [hstands.location_eq, hA.isPreorder.isPrefix_location_iff hn]
    exact ⟨m, hmem, rfl⟩

/-- A document in which two texts are being typed. -/
def typedText : Text := "a: \x7bb: p, c: q\x7d".toList

/-- The tree of `typedText`. -/
def typedTree : Tree :=
  ⟨#[⟨none, none, .mapping, none, [1], 0, 4, Span.upTo 0 15⟩,
    ⟨some "a", none, .mapping, some 0, [2, 3], 0, 4, Span.upTo 0 15⟩,
    ⟨some "b", some "p", .scalar, some 1, [], 0, 3, Span.upTo 4 10⟩,
    ⟨some "c", some "q", .scalar, some 1, [], 1, 4, Span.upTo 10 15⟩]⟩

/-- The document when one text has been finished and the other key has been replaced. -/
def finishedText : Text := "a: \x7bb: post, d: q\x7d".toList

/-- The tree of `finishedText`. -/
def finishedTree : Tree :=
  ⟨#[⟨none, none, .mapping, none, [1], 0, 4, Span.upTo 0 18⟩,
    ⟨some "a", none, .mapping, some 0, [2, 3], 0, 4, Span.upTo 0 18⟩,
    ⟨some "b", some "post", .scalar, some 1, [], 0, 3, Span.upTo 4 13⟩,
    ⟨some "d", some "q", .scalar, some 1, [], 1, 4, Span.upTo 13 18⟩]⟩

/-- The key that has been replaced has the mapping around it as its counterpart, and in its own tree
itself. -/
theorem counterpart?_typedTree :
    let finished : Index := ⟨some finishedTree, .other, 0⟩
    let typed : Index := ⟨some typedTree, .other, 0⟩
    typedTree.IsLocated typedText ∧ finishedTree.IsLocated finishedText ∧ 3 < typedTree.size ∧
      typedTree.shape Tree.root ≠ .scalar ∧ typedTree.HasDistinctKeys ∧
      (∃ c m, finished.counterpart? typedTree 3 = some c ∧ m ∈ typedTree.ancestorsOrSelf 3 ∧
        finishedTree.StandsFor c typedTree m) ∧
      finished.counterpart? typedTree 3 = some 1 ∧ typed.counterpart? typedTree 3 = some 3 := by
  intro finished typed
  have hA : typedTree.IsLocated typedText :=
    ⟨.mapping [(.string "a", .mapping [(.string "b", .string "p"), (.string "c", .string "q")])],
      _, rfl, rfl⟩
  have hB : finishedTree.IsLocated finishedText :=
    ⟨.mapping [(.string "a", .mapping [(.string "b", .string "post"), (.string "d", .string "q")])],
      _, rfl, rfl⟩
  have hroot : typedTree.shape Tree.root ≠ .scalar := by decide
  have hkeys : typedTree.HasDistinctKeys := by decide
  have hspec := counterpart?_spec hA hB (n := 3) (by decide)
  obtain ⟨c, m, hc, -, hm, hstands, -⟩ := hspec.2.1 finished rfl hroot
  exact ⟨hA, hB, by decide, hroot, hkeys, ⟨c, m, hc, hm, hstands⟩, by decide,
    hspec.2.2 typed rfl hkeys⟩

end Index

end WorkflowLens
