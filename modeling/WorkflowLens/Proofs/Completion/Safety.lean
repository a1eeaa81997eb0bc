import WorkflowLens.Proofs.Completion.Answers
import WorkflowLens.Proofs.Completion.Links
import WorkflowLens.Proofs.Expression.Caret
import WorkflowLens.Proofs.Tree.Packing
import WorkflowLens.Proofs.Tree.Spans

/-!
# When requests are safe

A request cuts its text at many offsets, and each of them has to lie between two characters of the
text it is an offset of.  The caret is rounded down, the ends of its line are found from there, and
the cursor of the locator only moves to the ends of what it finds.  So no cut is ever refused.  Nor
does any step of navigation leave the tree, because all numbers in a tree in pre-order are below its
size.

What can go wrong are the spans.  They are kept in 32 bits, which is enough for the text of a
request.  But what stands before the end of the caret's line may have to be completed, and then it
may be longer than that.  This is the only fault: a request is made unless a span in the completed
text comes to end before it starts.

* `Tree.WalksSafely`, `walksSafely`: the walk of the locator, for any tree and any text.
* `Tree.IsReached`, `IsPreorder.lt_size_of_isReached`: the nodes that navigation comes to.
* `Expression.Path.isIn_of_atCaret?`: the range of a path is in the text.
* `Request.pack_eq_ok_iff`, `Request.make_eq_ok_iff`: when a request is made.
* `Request.IsSafe`, `Request.safety_spec`: every request that is made is safe.
-/

namespace WorkflowLens

namespace Tree

variable {t : Tree} {text : Text}

/-! ## The walk of the locator -/

/-- The walk along a text is safe: it ends with a start for each node, its cursor is always a
character boundary of the text, and it never moves back. -/
structure WalksSafely (t : Tree) (text : Text) : Prop where
  starts : ∃ starts, t.starts text = .ok starts ∧ t.size ≤ starts.length ∧
    t.locate text = .ok (t.withStarts text.byteSize starts.toArray) ∧
    ∀ n < t.size, starts[n]? = some (t.search text n).anchor.start
  cursor_isBoundary : ∀ n, text.isBoundary (t.search text n).cursor = true
  start_isBoundary : ∀ n, text.isBoundary (t.search text n).anchor.start = true
  cursor_le : ∀ n m, n ≤ m → (t.search text n).cursor ≤ (t.search text m).cursor

/-- **The walk is safe whatever the tree has to do with the text.** -/
theorem walksSafely (t : Tree) (text : Text) : t.WalksSafely text where
  starts := by
    rcases Nat.eq_zero_or_pos t.size with hzero | hpos
    · -- a tree without nodes has a start to spare
      have hnodes : t.nodes.toList = [] := List.length_eq_zero_iff.mp hzero
      refine ⟨[0], ?_, by omega, ?_, fun n hn => by omega⟩
      · rw [Tree.starts, hnodes]
        rfl
      · rw [locate, Tree.starts, hnodes]
        rfl
    · refine ⟨_, starts_eq text hpos, ?_, locate_eq text hpos, fun n hn => ?_⟩
      · rw [List.length_map, List.length_range]
      · rw [List.getElem?_map, List.getElem?_range hn]
        rfl
  cursor_isBoundary := fun n => (isBoundary_search t text n).1
  start_isBoundary := isBoundary_start_search t text
  cursor_le := fun _ _ => cursor_search_mono t text

/-! ## Navigation -/

/-- The nodes that navigation comes to from the root or from an offset. -/
inductive IsReached (t : Tree) : Nat → Prop
  | root : IsReached t root
  | nodeAt (offset : Nat) : IsReached t (t.nodeAt offset)
  | parent {n p : Nat} : IsReached t n → t.parent? n = some p → IsReached t p
  | child {n c : Nat} : IsReached t n → c ∈ t.children n → IsReached t c
  | ancestor {n a : Nat} : IsReached t n → a ∈ t.ancestorsOrSelf n → IsReached t a
  | inside {n m : Nat} {p : Nat → Bool} : IsReached t n → m ∈ t.nodesWhere n p → IsReached t m

theorem nodeAt_lt_size (hpos : 0 < t.size) (offset : Nat) : t.nodeAt offset < t.size := by
  rw [nodeAt]
  cases hfound : (List.range t.size).reverse.find? fun n => (t.span n).start ≤ offset with
  | none => exact hpos
  | some n => exact (find?_reverse_range_eq_some hfound).1

/-- **No step of navigation leaves the tree.** -/
theorem IsPreorder.lt_size_of_isReached (h : t.IsPreorder) {n : Nat} (hn : t.IsReached n) :
    n < t.size := by
  induction hn with
  | root => exact h.size_pos
  | nodeAt offset => exact nodeAt_lt_size h.size_pos offset
  | parent _ hp => exact h.parent_lt_size hp
  | child _ hc ih => exact lt_size_of_parent ((h.mem_children_iff ih).mp hc)
  | ancestor _ ha ih => exact h.lt_size_of_mem_ancestorsOrSelf ih ha
  | @inside n m p _ hm ih =>
    have hrange := List.mem_range'_1.mp (List.mem_filter.mp hm).1
    have hstop := h.stop_le_size ih
    omega

/-! ## Decoding -/

/-- Decoding a text that is still being typed never asks for a cut inside a character. -/
theorem exists_decodePartial?_eq (text : Text) : ∃ found, decodePartial? text = .ok found := by
  rw [decodePartial?]
  generalize text :: _ = texts
  induction texts with
  | nil => exact ⟨none, rfl⟩
  | cons s texts ih =>
    obtain ⟨found, hfound⟩ := exists_decode?_eq s
    rw [decodeFirst?, hfound]
    cases found with
    | some t => exact ⟨some t, rfl⟩
    | none => exact ih

end Tree

/-! ## Ranges in the text -/

namespace Expression.Path

/-- The search for a path at a caret cuts at boundaries only. -/
theorem exists_atCaret?_eq (text : Text) (caret : Nat) :
    ∃ found, atCaret? text caret = .ok found := by
  by_cases h : text.isBoundary (min caret text.byteSize) = true
  · exact ⟨_, atCaret?_of_isBoundary h⟩
  · exact ⟨none, atCaret?_of_not_isBoundary h⟩

/-- **The range of the path at a caret is that of its last word in the text.** -/
theorem isIn_of_atCaret? {text : Text} {caret : Nat} {p : Path}
    (h : atCaret? text caret = .ok (some p)) : p.span.IsIn text := by
  by_cases hcaret : text.isBoundary (min caret text.byteSize) = true
  · rw [atCaret?_of_isBoundary hcaret, Except.ok.injEq] at h
    obtain ⟨q, hq, rfl⟩ := Option.map_eq_some_iff.mp h
    have hwritten := isWrittenBefore_of_ofLine? hcaret hq
    refine ⟨?_, ?_⟩
    · obtain ⟨lines, between, after, htext, hstart, -, -⟩ := hwritten.written
      rw [hstart, htext, List.append_assoc _ _ after]
      exact Text.isBoundary_append _ _
    · rw [hwritten.stop_eq]
      exact hcaret
  · rw [atCaret?_of_not_isBoundary hcaret] at h
    cases h

end Expression.Path

/-! ## Requests -/

namespace Request

/-- A text that the trees of a request are decoded from: its own text, or the part up to the end of
the caret's line, as it stands or completed. -/
def IsSource (r : Request) (source : Text) : Prop :=
  source = r.text ∨ ∃ front after, r.text = front ++ after ∧
    front.byteSize = r.text.caretLineEnd r.caret ∧
    (source = front ∨ source = front ++ Tree.closingOf front ∨
      source = Text.trimEnd front ++ [':'])

/-- A completed text is at most twice as long as the text of the request, and one byte. -/
theorem IsSource.byteSize_le {r : Request} {source : Text} (h : r.IsSource source) :
    source.byteSize ≤ 2 * r.text.byteSize + 1 := by
  rcases h with rfl | ⟨front, after, htext, -, hcases⟩
  · omega
  · have hfront : front.byteSize ≤ r.text.byteSize := by
      rw [htext, Text.byteSize_append]
      exact Nat.le_add_right _ _
    rcases hcases with rfl | rfl | rfl
    · omega
    · have hclosing := Tree.byteSize_closingOf_le front
      rw [Text.byteSize_append]
      omega
    · have htrim := congrArg Text.byteSize
        (Text.dropEndWhile_append_takeEndWhile Text.isBlank front)
      rw [Text.byteSize_append, ← Text.trimEnd] at htrim
      rw [Text.byteSize_append, Text.byteSize_cons, Text.byteSize_nil, Tree.utf8Size_colon]
      omega

theorem links_isIn (r : Request) : ∀ l ∈ r.links, l.span.IsIn r.text := by
  intro l hl
  rw [links, WorkflowLens.links] at hl
  split at hl
  · simp at hl
  · obtain ⟨n, -, hn⟩ := List.mem_filterMap.mp hl
    exact Link.isIn_of_ofNode? hn

/-- What a request is made of. -/
theorem exists_ofText_eq (text : Text) (kind : DocumentKind) (caret : Nat) :
    ∃ r front after whole, ofText text kind caret = .ok r ∧ r.text = text ∧
      r.caret = min caret text.byteSize ∧
      Expression.Path.atCaret? text r.caret = .ok r.path? ∧
      text = front ++ after ∧ front.byteSize = text.caretLineEnd r.caret ∧
      Tree.decodePartial? front = .ok r.upToCaret.tree ∧ Tree.decode? text = .ok whole ∧
      r.whole.tree = if whole.isSome then whole else r.upToCaret.tree := by
  generalize hcaret : min caret text.byteSize = offset
  obtain ⟨front, after, htext, hsize⟩ := Text.isBoundary_iff.mp (text.caretLine_spec offset).2.1
  have hcut : text.cut (text.caretLineEnd offset) = .ok (front, after) :=
    Text.cut_eq_ok_iff.mpr ⟨htext, hsize⟩
  obtain ⟨upToCaret, hupToCaret⟩ := Tree.exists_decodePartial?_eq front
  obtain ⟨whole, hwhole⟩ := Tree.exists_decode?_eq text
  obtain ⟨path?, hpath⟩ := Expression.Path.exists_atCaret?_eq text offset
  have hbefore : Index.ofTextUpToCaret text kind offset
      = .ok (Index.ofTree upToCaret kind offset) := by
    rw [Index.ofTextUpToCaret, hcut]
    simp only [bind, Except.bind, hupToCaret, pure, Except.pure]
  have hall : Index.ofText text kind offset = .ok (Index.ofTree whole kind offset) := by
    rw [Index.ofText, hwhole]
    rfl
  rw [ofText, hcaret]
  simp only [bind, Except.bind, hbefore, hall, hpath, pure, Except.pure]
  refine ⟨_, front, after, whole, rfl, rfl, rfl, hpath, htext, hsize, hupToCaret, hwhole, ?_⟩
  cases whole <;> rfl

/-- The trees of a request are located in the texts that they are decoded from. -/
theorem exists_isSource_isLocated {text : Text} {kind : DocumentKind} {caret : Nat} {r : Request}
    (h : ofText text kind caret = .ok r) :
    ∀ t, r.upToCaret.tree = some t ∨ r.whole.tree = some t →
      ∃ source, r.IsSource source ∧ t.IsLocated source := by
  obtain ⟨_, front, after, whole, hr, htext, -, -, hsplit, hsize, hpartial, hwhole, heq⟩ :=
    exists_ofText_eq text kind caret
  cases h.symm.trans hr
  subst htext
  have hupToCaret : ∀ t, r.upToCaret.tree = some t →
      ∃ source, r.IsSource source ∧ t.IsLocated source := by
    intro t ht
    rw [ht] at hpartial
    have hsource : ∀ {source}, (source = front ∨ source = front ++ Tree.closingOf front ∨
        source = Text.trimEnd front ++ [':']) → r.IsSource source :=
      fun hcases => .inr ⟨front, after, hsplit, hsize, hcases⟩
    rcases Tree.cases_of_decodePartial? hpartial with hdecode | ⟨-, hdecode⟩ | hdecode
    · exact ⟨_, hsource (.inl rfl), Tree.isLocated_of_decode? hdecode⟩
    · exact ⟨_, hsource (.inr (.inl rfl)), Tree.isLocated_of_decode? hdecode⟩
    · exact ⟨_, hsource (.inr (.inr rfl)), Tree.isLocated_of_decode? hdecode⟩
  rintro t (ht | ht)
  · exact hupToCaret t ht
  · rw [heq] at ht
    split at ht
    · rw [ht] at hwhole
      exact ⟨_, .inl rfl, Tree.isLocated_of_decode? hwhole⟩
    · exact hupToCaret t ht

end Request

/-! ## Packing -/

namespace Index

/-- The index with a packed tree. -/
def packed (ix : Index) : Index := { ix with tree := ix.tree.map Tree.packed }

/-- The tree, if there is one, can be kept. -/
def Packs (ix : Index) : Prop := ∀ t, ix.tree = some t → t.Packs

theorem pack_eq_ok_iff {ix kept : Index} : ix.pack = .ok kept ↔ ix.Packs ∧ kept = ix.packed := by
  obtain ⟨tree, kind, caret⟩ := ix
  cases tree with
  | none => simp [pack, packed, Packs, eq_comm]
  | some t =>
    simp only [pack, packed, Packs, Option.some.injEq, forall_eq', Option.map_some]
    cases hpack : t.pack with
    | ok u =>
      obtain ⟨hpacks, rfl⟩ := Tree.pack_eq_ok_iff.mp hpack
      exact ⟨fun h => ⟨hpacks, (Except.ok.inj h).symm⟩, fun h => congrArg Except.ok h.2.symm⟩
    | error fault =>
      refine ⟨nofun, fun h => ?_⟩
      cases hpack.symm.trans (Tree.pack_eq_ok_iff.mpr ⟨h.1, rfl⟩)

theorem exists_of_pack_eq_error {ix : Index} {fault : Fault} (h : ix.pack = .error fault) :
    ∃ start stop, fault = .span start stop := by
  rw [pack] at h
  split at h
  · next t ht =>
    cases hpack : t.pack with
    | ok u =>
      rw [hpack] at h
      cases h
    | error cause =>
      rw [hpack] at h
      cases h
      exact Tree.exists_of_pack_eq_error hpack
  · cases h

/-- An index of a tree that is kept as it is, or without a tree, is kept as it is. -/
theorem packed_eq {ix : Index} (h : ∀ t, ix.tree = some t → t.packed = t) : ix.packed = ix := by
  obtain ⟨tree, kind, caret⟩ := ix
  cases tree with
  | none => rfl
  | some t => rw [packed, Option.map_some, h t rfl]

end Index

namespace Request

/-- The request with packed trees. -/
def packed (r : Request) : Request :=
  { r with upToCaret := r.upToCaret.packed, whole := r.whole.packed }

theorem pack_eq_ok_iff {r kept : Request} :
    r.pack = .ok kept ↔ r.upToCaret.Packs ∧ r.whole.Packs ∧ kept = r.packed := by
  rw [pack]
  cases hbefore : r.upToCaret.pack with
  | error fault =>
    refine ⟨nofun, fun h => ?_⟩
    cases hbefore.symm.trans (Index.pack_eq_ok_iff.mpr ⟨h.1, rfl⟩)
  | ok upToCaret =>
    obtain ⟨hupToCaret, rfl⟩ := Index.pack_eq_ok_iff.mp hbefore
    cases hall : r.whole.pack with
    | error fault =>
      refine ⟨nofun, fun h => ?_⟩
      cases hall.symm.trans (Index.pack_eq_ok_iff.mpr ⟨h.2.1, rfl⟩)
    | ok whole =>
      obtain ⟨hwhole, rfl⟩ := Index.pack_eq_ok_iff.mp hall
      exact ⟨fun h => ⟨hupToCaret, hwhole, (Except.ok.inj h).symm⟩,
        fun h => congrArg Except.ok h.2.2.symm⟩

theorem exists_of_pack_eq_error {r : Request} {fault : Fault} (h : r.pack = .error fault) :
    ∃ start stop, fault = .span start stop := by
  rw [pack] at h
  cases hbefore : r.upToCaret.pack with
  | error cause =>
    rw [hbefore] at h
    cases h
    exact Index.exists_of_pack_eq_error hbefore
  | ok upToCaret =>
    rw [hbefore] at h
    cases hall : r.whole.pack with
    | error cause =>
      rw [hall] at h
      cases h
      exact Index.exists_of_pack_eq_error hall
    | ok whole =>
      rw [hall] at h
      cases h

section make

variable {text : Text} {kind : DocumentKind} {caret : Nat} {r kept : Request}

/-- A request for a text below the bound is the one of the text, packed. -/
theorem make_eq_pack (hsize : text.byteSize < Offset.bound)
    (hr : ofText text kind caret = .ok r) : make text kind caret = r.pack := by
  rw [make, if_neg (Nat.not_le.mpr hsize), hr]
  rfl

/-- **A request is made exactly if the tree up to the caret can be kept.**  The tree of the whole
text always can. -/
theorem make_eq_ok_iff (hsize : text.byteSize < Offset.bound)
    (hr : ofText text kind caret = .ok r) :
    make text kind caret = .ok kept ↔ r.upToCaret.Packs ∧ kept = r.packed := by
  have hwhole : r.upToCaret.Packs → r.whole.Packs := by
    obtain ⟨_, _, _, whole, hr', -, -, -, -, -, -, hdecode, heq⟩ :=
      exists_ofText_eq text kind caret
    cases hr.symm.trans hr'
    intro hpacks t ht
    rw [heq] at ht
    split at ht
    · rw [ht] at hdecode
      exact (Tree.isLocated_of_decode? hdecode).packs hsize
    · exact hpacks t ht
  rw [make_eq_pack hsize hr, pack_eq_ok_iff]
  exact ⟨fun h => ⟨h.1, h.2.2⟩, fun h => ⟨h.1, hwhole h.1, h.2⟩⟩

/-- A request is made as it is if no text that its trees are decoded from reaches the bound. -/
theorem make_eq_of_isSource_lt (hsize : text.byteSize < Offset.bound)
    (hr : ofText text kind caret = .ok r)
    (hsources : ∀ source, r.IsSource source → source.byteSize < Offset.bound) :
    make text kind caret = .ok r := by
  have hlocated : ∀ t, r.upToCaret.tree = some t ∨ r.whole.tree = some t →
      t.Packs ∧ t.packed = t := by
    intro t ht
    obtain ⟨source, hsource, hsourceIs⟩ := exists_isSource_isLocated hr t ht
    exact ⟨hsourceIs.packs (hsources source hsource), hsourceIs.packed_eq (hsources source hsource)⟩
  refine (make_eq_ok_iff hsize hr).mpr ⟨fun t ht => (hlocated t (.inl ht)).1, ?_⟩
  rw [packed, Index.packed_eq fun t ht => (hlocated t (.inl ht)).2,
    Index.packed_eq fun t ht => (hlocated t (.inr ht)).2]

end make

/-! ## Safety -/

/-- What is owed by a request: the caret, its line, the path and the links are in the text and never
cut a character in two, offsets fit in 32 bits, navigation stays in the trees, and a catalog that
answers is all that is needed for suggestions. -/
structure IsSafe (r : Request) : Prop where
  caret_le : r.caret ≤ r.text.byteSize
  floor_isBoundary : r.text.isBoundary (Text.byteSize (r.text.splitAtFloor r.caret).1) = true
  lineStart_isBoundary : r.text.isBoundary (r.text.caretLineStart r.caret) = true
  lineEnd_isBoundary : r.text.isBoundary (r.text.caretLineEnd r.caret) = true
  path_isIn : ∀ p, r.path? = some p → p.span.IsIn r.text
  links_isIn : ∀ l ∈ r.links, l.span.IsIn r.text
  trees : ∀ t, r.upToCaret.tree = some t ∨ r.whole.tree = some t →
    (∀ n < t.size, (t.span n).stop < Offset.bound) ∧ ∀ n, t.IsReached n → n < t.size
  suggestions : ∀ {ε σ : Type} (good : σ → Prop) (catalog : Catalog (ExceptT ε (StateM σ))),
    catalog.Answers good → Succeeds good (r.suggestions catalog)
  resolveAtCaret : ∀ {ε σ : Type} (good : σ → Prop) (catalog : Catalog (ExceptT ε (StateM σ))),
    catalog.Answers good → Succeeds good (r.resolveAtCaret catalog)

/-- The trees of a packed request are packed. -/
theorem of_packed_tree {r : Request} {t : Tree}
    (h : r.packed.upToCaret.tree = some t ∨ r.packed.whole.tree = some t) :
    ∃ u, (r.upToCaret.tree = some u ∨ r.whole.tree = some u) ∧ t = u.packed := by
  rcases h with h | h
  · obtain ⟨u, hu, rfl⟩ := Option.map_eq_some_iff.mp h
    exact ⟨u, .inl hu, rfl⟩
  · obtain ⟨u, hu, rfl⟩ := Option.map_eq_some_iff.mp h
    exact ⟨u, .inr hu, rfl⟩

theorem isSafe_packed {text : Text} {kind : DocumentKind} {caret : Nat} {r : Request}
    (hr : ofText text kind caret = .ok r) : r.packed.IsSafe := by
  obtain ⟨_, _, _, _, hr', htext, hcaret, hpath, -⟩ := exists_ofText_eq text kind caret
  cases hr.symm.trans hr'
  subst htext
  obtain ⟨hstart, hend, -, -⟩ := r.text.caretLine_spec r.caret
  refine ⟨Nat.le_trans (Nat.le_of_eq hcaret) (Nat.min_le_right _ _),
    (r.text.splitAtFloor_spec r.caret).1, hstart, hend,
    fun p hp => Expression.Path.isIn_of_atCaret? (hpath.trans (congrArg Except.ok hp)),
    r.packed.links_isIn, fun t ht => ?_, fun _ _ hanswers => r.packed.succeeds_suggestions hanswers,
    fun _ _ hanswers => r.packed.succeeds_resolveAtCaret hanswers⟩
  obtain ⟨u, hu, rfl⟩ := of_packed_tree ht
  obtain ⟨source, -, hlocated⟩ := exists_isSource_isLocated hr u hu
  refine ⟨fun n _ => ?_, fun n => hlocated.isPreorder.packed.lt_size_of_isReached⟩
  rw [Tree.span_packed]
  exact Span.stop_packed_lt _

/-- **When a request is made, and that it is safe then.**  The walk of the locator is safe for every
tree and every text.  For every text below 2^32 bytes and every kind and caret, one past the end or
inside a character included, no cut is refused; the nodes of both trees stand in the texts that the
trees are decoded from; the request is made exactly if no span of the tree up to the caret comes to
end before it starts, and there is no other fault; and a request that is made is safe.  A session
with room is a catalog that answers. -/
theorem safety_spec (text : Text) (kind : DocumentKind) (caret : Nat)
    (hsize : text.byteSize < Offset.bound) :
    (∀ (t : Tree) (source : Text), t.WalksSafely source) ∧
    Session.catalog.Answers Session.HasRoom ∧
    ∃ r, ofText text kind caret = .ok r ∧
      (∀ t, r.upToCaret.tree = some t ∨ r.whole.tree = some t →
        ∃ source, r.IsSource source ∧ source.byteSize ≤ 2 * text.byteSize + 1 ∧
          t.SpansIn source) ∧
      ((∃ kept, make text kind caret = .ok kept) ↔ ∀ t, r.upToCaret.tree = some t →
        ∀ n < t.size, Offset.pack (t.span n).start ≤ Offset.pack (t.span n).stop) ∧
      (∀ fault, make text kind caret = .error fault → ∃ start stop, fault = .span start stop) ∧
      ((∀ source, r.IsSource source → source.byteSize < Offset.bound) →
        make text kind caret = .ok r) ∧
      ∀ kept, make text kind caret = .ok kept → kept.text = text ∧
        kept.caret = min caret text.byteSize ∧ kept.IsSafe := by
  obtain ⟨r, _, _, _, hr, htext, hcaret, -⟩ := exists_ofText_eq text kind caret
  refine ⟨Tree.walksSafely, Session.answers_catalog, r, hr, fun t ht => ?_, ?_,
    fun fault hfault => ?_, make_eq_of_isSource_lt hsize hr, fun kept hkept => ?_⟩
  · obtain ⟨source, hsource, hlocated⟩ := exists_isSource_isLocated hr t ht
    exact ⟨source, hsource, htext ▸ hsource.byteSize_le, hlocated.spansIn⟩
  · simp only [make_eq_ok_iff hsize hr, exists_and_left, exists_eq, and_true]
    exact Iff.rfl
  · rw [make_eq_pack hsize hr] at hfault
    exact exists_of_pack_eq_error hfault
  · obtain ⟨-, rfl⟩ := (make_eq_ok_iff hsize hr).mp hkept
    exact ⟨htext, hcaret, isSafe_packed hr⟩

/-- An open bracket is completed, and the request is made and is safe. -/
theorem exists_make_openBracket : Text.byteSize "k: [".toList < Offset.bound ∧
    ∃ kept, make "k: [".toList .workflow 4 = .ok kept ∧ kept.IsSafe := by
  have hsize : Text.byteSize "k: [".toList < Offset.bound := by decide
  refine ⟨hsize, ?_⟩
  obtain ⟨-, -, r, hr, -, -, -, hshort, hsafe⟩ := safety_spec "k: [".toList .workflow 4 hsize
  have htext : r.text = "k: [".toList := by
    obtain ⟨_, _, _, _, hr', htext, -⟩ := exists_ofText_eq "k: [".toList .workflow 4
    cases hr.symm.trans hr'
    exact htext
  have hmade := hshort fun source hsource => by
    have hle := hsource.byteSize_le
    rw [htext] at hle
    exact Nat.lt_of_le_of_lt hle (by decide)
  exact ⟨r, hmade, (hsafe r hmade).2.2⟩

end Request

end WorkflowLens
