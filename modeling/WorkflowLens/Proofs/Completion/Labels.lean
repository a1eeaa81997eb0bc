import Mathlib.Data.List.Nodup
import WorkflowLens.Proofs.Completion.Inputs
import WorkflowLens.Proofs.Completion.Paths

/-!
# Labels and ranks of the items that are offered

An item that is offered twice is one too many, and items of one rank have no order.  Ranks are no
problem: every list of names ranks its items in order, and leaving some of them out keeps the
order.  Nor are labels where the names come from a dictionary or from a fixed table, since no name
is twice in it.

One list is neither.  The jobs that a job needs are taken from the document as they are written
there, and in a document the same job may be written twice.

* `Item.IsListing`: items with different labels, in the order of their ranks.
* `Request.isListing_candidatesIn`, `Request.isListing_structuralItems`: all lists but one.
* `Request.RepeatsNeed`: a job that goes with what has been typed is written twice in the list.
* `Request.exists_nodup_labels_iff`: which lists have different labels.
* `Request.labels_repeatedNeed`: a job that is offered twice.
-/

namespace WorkflowLens

namespace Item

/-- Items in the order of their ranks, which are all different. -/
def Ranked (items : List Item) : Prop := items.Pairwise fun i j => i.priority < j.priority

/-- Items with different labels, in the order of their ranks. -/
structure IsListing (items : List Item) : Prop where
  nodup_labels : (items.map label).Nodup
  ranked : Ranked items

theorem ranked_ofPairs (kind : ItemKind) (pairs : List (String × String)) :
    Ranked (ofPairs kind pairs) := by
  rw [Ranked, List.pairwise_iff_getElem]
  intro i j _ _ hij
  simpa [ofPairs, withPriority] using hij

theorem Ranked.matching {items : List Item} (h : Ranked items) (typed : Text) :
    Ranked (matching typed items) :=
  List.Pairwise.sublist List.filter_sublist h

theorem isListing_nil : IsListing [] := ⟨List.nodup_nil, List.Pairwise.nil⟩

theorem isListing_singleton (i : Item) : IsListing [i] :=
  ⟨List.nodup_singleton _, List.pairwise_singleton _ _⟩

theorem isListing_ofPairs (kind : ItemKind) {pairs : List (String × String)}
    (h : (pairs.map Prod.fst).Nodup) : IsListing (ofPairs kind pairs) where
  nodup_labels := by rwa [map_label_ofPairs]
  ranked := ranked_ofPairs kind pairs

/-- The names of a dictionary are listed once each. -/
theorem isListing_ofDictionary (kind : ItemKind) (d : Dictionary) :
    IsListing (ofDictionary kind d) :=
  isListing_ofPairs kind d.nodup_names

theorem IsListing.matching {items : List Item} (h : IsListing items) (typed : Text) :
    IsListing (matching typed items) where
  nodup_labels := by
    rw [Request.map_label_matching]
    exact h.nodup_labels.filter _
  ranked := h.ranked.matching typed

/-- A text to insert changes neither label nor rank. -/
theorem IsListing.map_keyItem {items : List Item} (h : IsListing items) :
    IsListing (items.map Request.keyItem) where
  nodup_labels := by
    have hlabel : label ∘ Request.keyItem = label := rfl
    rw [List.map_map, hlabel]
    exact h.nodup_labels
  ranked := List.pairwise_map.mpr h.ranked

end Item

open Expression (Path)

namespace Request

open Item

/-! ## Paths -/

/-- All contexts but that of needed jobs take their names from dictionaries and tables. -/
theorem isListing_contextMembers (r : Request) {context : Context} (h : context ≠ .needs) :
    IsListing (r.contextMembers context) := by
  cases context with
  | needs => exact absurd rfl h
  | github => exact isListing_ofPairs _ (by decide)
  | other =>
    rw [contextMembers, contextItems]
    split
    · exact isListing_singleton _
    · split
      · exact isListing_nil
      · exact isListing_ofPairs _ (by decide)
  | _ => exact isListing_ofDictionary _ _

theorem ranked_contextMembers (r : Request) (context : Context) :
    Ranked (r.contextMembers context) := by
  by_cases h : context = .needs
  · rw [h]
    exact ranked_ofPairs _ _
  · exact (r.isListing_contextMembers h).ranked

section resolveIn

variable {σ : Type} (r : Request) (catalog : Catalog (StateM σ)) (s : σ)

theorem isListing_outputMembers (context : Context) (owner : String) :
    IsListing ((r.outputMembers catalog context owner).run s).1 := by
  cases context with
  | jobs => exact isListing_ofDictionary _ _
  | needs => exact isListing_ofDictionary _ _
  | steps => exact isListing_ofDictionary _ _
  | _ => exact isListing_nil

/-- After the context all candidates are listed once each. -/
theorem isListing_candidatesIn (segments : List String) {depth : Nat} (hdepth : depth ≠ 0) :
    IsListing (r.candidatesIn catalog s segments depth) :=
  match depth with
  | 0 => absurd rfl hdepth
  | 1 => by
    rw [candidatesIn_one]
    split
    · exact isListing_singleton _
    · exact isListing_nil
  | 2 => by
    cases howner : segments[1]? with
    | none =>
      have hnone : r.candidatesIn catalog s segments 2 = [] := by
        simp only [candidatesIn, candidates, howner]
        rfl
      rw [hnone]
      exact isListing_nil
    | some owner =>
      have hmembers : r.candidatesIn catalog s segments 2
          = ((r.outputMembers catalog (Context.ofSegments segments) owner).run s).1 := by
        simp only [candidatesIn, candidates, howner]
      rw [hmembers]
      exact r.isListing_outputMembers catalog s _ owner
  | depth + 3 => by
    rw [candidatesIn_of_three_le r catalog s segments (by omega)]
    exact isListing_nil

/-- What is offered for a path are candidates of its last depth. -/
theorem items_resolveIn_cases (path : Path) :
    (r.resolveIn catalog s path).items = [] ∨
      (r.resolveIn catalog s path).items = Item.matching path.stem.toList
        (r.candidatesIn catalog s path.segments (path.segments.length - 1)) := by
  rcases r.resolveIn_cases catalog s path with ⟨hend, -⟩ | ⟨hend, -⟩
  · exact .inl (by rw [hend]; rfl)
  · exact .inr (by rw [hend]; rfl)

theorem ranked_items_resolveIn (path : Path) : Ranked (r.resolveIn catalog s path).items := by
  rcases r.items_resolveIn_cases catalog s path with hitems | hitems
  · rw [hitems]
    exact isListing_nil.ranked
  · rw [hitems]
    refine Ranked.matching ?_ _
    by_cases hdepth : path.segments.length - 1 = 0
    · rw [hdepth]
      exact r.ranked_contextMembers (Context.ofSegments path.segments)
    · exact (r.isListing_candidatesIn catalog s _ hdepth).ranked

theorem ofSegments_eq_needs_iff {segments : List String} :
    Context.ofSegments segments = .needs ↔ ∃ rest, segments = "needs" :: rest := by
  cases segments with
  | nil => simp [Context.ofSegments]
  | cons first rest =>
    simp only [Context.ofSegments, List.cons.injEq, exists_and_left, exists_eq', and_true]
    constructor
    · intro h
      by_contra hne
      unfold Context.ofSegment at h
      simp only [hne, if_false] at h
      split_ifs at h
    · rintro rfl
      rfl

/-- Only right after the context of needed jobs a label may be offered twice. -/
theorem isListing_items_resolveIn {path : Path} (h : path.segments ≠ ["needs"]) :
    IsListing (r.resolveIn catalog s path).items := by
  rcases r.items_resolveIn_cases catalog s path with hitems | hitems
  · rw [hitems]
    exact isListing_nil
  · rw [hitems]
    refine IsListing.matching ?_ _
    by_cases hdepth : path.segments.length - 1 = 0
    · rw [hdepth]
      refine r.isListing_contextMembers fun hneeds => ?_
      obtain ⟨rest, hrest⟩ := ofSegments_eq_needs_iff.mp hneeds
      rw [hrest, List.length_cons, Nat.add_sub_cancel] at hdepth
      rw [hrest, List.eq_nil_of_length_eq_zero hdepth] at h
      exact h rfl
    · exact r.isListing_candidatesIn catalog s _ hdepth

/-- After the context of needed jobs the written names are offered that go with what has been
typed. -/
theorem map_label_items_needs {path : Path} (h : path.segments = ["needs"]) :
    (r.resolveIn catalog s path).items.map Item.label
      = r.needNames.filter fun name => Text.fuzzyMatches path.stem.toList name.toList := by
  have hitems : (r.resolveIn catalog s path).items = Item.matching path.stem.toList
      (r.contextMembers .needs) := by
    rw [items_resolveIn, h]
    rfl
  rw [hitems, map_label_matching, contextMembers, Item.map_label_ofPairs, map_fst_neededJobs]

end resolveIn

/-! ## Items at the caret -/

section itemsIn

variable {σ : Type} (r : Request) (catalog : Catalog (StateM σ)) (s : σ)

/-- The items at the caret, for a catalog in a given state. -/
def itemsIn : List Item := ((r.suggestions catalog).run s).1

/-- The items for the path at the caret, if there is one. -/
def pathItemsIn : List Item := ((r.resolveAtCaret catalog).run s).1.items

theorem itemsIn_of_path {path : Path} (h : r.path? = some path) :
    r.itemsIn catalog s = (r.resolveIn catalog s path).items := by
  rw [itemsIn, suggestions, h]
  rfl

theorem pathItemsIn_of_path {path : Path} (h : r.path? = some path) :
    r.pathItemsIn catalog s = (r.resolveIn catalog s path).items := by
  rw [pathItemsIn, resolveAtCaret, h]
  rfl

theorem pathItemsIn_of_no_path (h : r.path? = none) : r.pathItemsIn catalog s = [] := by
  rw [pathItemsIn, resolveAtCaret, h]
  rfl

/-- Other jobs and inputs are listed once each. -/
theorem isListing_structuralItems : IsListing ((r.structuralItems catalog).run s).1 := by
  rw [structuralItems]
  split
  · exact isListing_ofDictionary _ _
  · exact (isListing_ofDictionary .input ((r.inputsAtCaret catalog).run s).1).map_keyItem

theorem isListing_itemsIn_of_no_path (h : r.path? = none) : IsListing (r.itemsIn catalog s) := by
  have hitems : r.itemsIn catalog s = Item.matching (r.text.wordBefore r.caret)
      ((r.structuralItems catalog).run s).1 := by
    rw [itemsIn, suggestions, h]
    rfl
  rw [hitems]
  exact (r.isListing_structuralItems catalog s).matching _

/-- The path at the caret asks for a needed job, and one that goes with what has been typed is
written twice among the needs of the caret's job. -/
def RepeatsNeed : Prop :=
  ∃ path, r.path? = some path ∧ path.segments = ["needs"] ∧
    ¬ (r.needNames.filter fun name => Text.fuzzyMatches path.stem.toList name.toList).Nodup

theorem nodup_labels_resolveIn_iff {path : Path} (h : r.path? = some path) :
    ((r.resolveIn catalog s path).items.map Item.label).Nodup ↔ ¬ r.RepeatsNeed := by
  by_cases hneeds : path.segments = ["needs"]
  · rw [map_label_items_needs r catalog s hneeds]
    constructor
    · rintro hnodup ⟨path', hpath', -, hrepeat⟩
      rw [h, Option.some.injEq] at hpath'
      rw [← hpath'] at hrepeat
      exact hrepeat hnodup
    · intro hno
      by_contra hrepeat
      exact hno ⟨path, h, hneeds, hrepeat⟩
  · refine iff_of_true (r.isListing_items_resolveIn catalog s hneeds).nodup_labels ?_
    rintro ⟨path', hpath', hneeds', -⟩
    rw [h, Option.some.injEq] at hpath'
    rw [← hpath'] at hneeds'
    exact hneeds hneeds'

theorem not_repeatsNeed_of_no_path (h : r.path? = none) : ¬ r.RepeatsNeed := by
  rintro ⟨path, hpath, -⟩
  rw [h] at hpath
  cases hpath

end itemsIn

/-- **Which lists have different labels.**  Every caret of every text has a request, and whatever
the catalog knows, the items at the caret and those for its path are in the order of their ranks.
Their labels are different exactly if no needed job is written twice where needed jobs are asked
for. -/
theorem exists_nodup_labels_iff (text : Text) (kind : DocumentKind) (caret : Nat) :
    ∃ r, ofText text kind caret = .ok r ∧
      ∀ {σ : Type} (catalog : Catalog (StateM σ)) (s : σ),
        (((r.itemsIn catalog s).map Item.label).Nodup ↔ ¬ r.RepeatsNeed) ∧
        (((r.pathItemsIn catalog s).map Item.label).Nodup ↔ ¬ r.RepeatsNeed) ∧
        Ranked (r.itemsIn catalog s) ∧ Ranked (r.pathItemsIn catalog s) := by
  obtain ⟨r, _, _, _, hr, -⟩ := exists_ofText_eq text kind caret
  refine ⟨r, hr, fun catalog s => ?_⟩
  cases hpath : r.path? with
  | none =>
    have hno := r.not_repeatsNeed_of_no_path hpath
    have hlisting := r.isListing_itemsIn_of_no_path catalog s hpath
    rw [pathItemsIn_of_no_path r catalog s hpath]
    exact ⟨iff_of_true hlisting.nodup_labels hno, iff_of_true List.nodup_nil hno, hlisting.ranked,
      List.Pairwise.nil⟩
  | some path =>
    have hnodup := r.nodup_labels_resolveIn_iff catalog s hpath
    have hranked := r.ranked_items_resolveIn catalog s path
    rw [itemsIn_of_path r catalog s hpath, pathItemsIn_of_path r catalog s hpath]
    exact ⟨hnodup, hnodup, hranked, hranked⟩

/-- A workflow in which a job is written twice among the needs of another one. -/
def repeatedNeedText : Text :=
  "jobs:\n  a: \x7b\x7d\n  b:\n    needs: [a, a]\n    name: $\x7b\x7b needs.".toList

/-- The tree of `repeatedNeedText`. -/
def repeatedNeedTree : Tree :=
  ⟨#[⟨none, none, .mapping, none, [1], 0, 8, Span.upTo 0 57⟩,
    ⟨some "jobs", none, .mapping, some 0, [2, 3], 0, 8, Span.upTo 0 57⟩,
    ⟨some "a", none, .mapping, some 1, [], 0, 3, Span.upTo 8 16⟩,
    ⟨some "b", none, .mapping, some 1, [4, 7], 1, 8, Span.upTo 16 57⟩,
    ⟨some "needs", none, .sequence, some 3, [5, 6], 0, 7, Span.upTo 23 41⟩,
    ⟨none, some "a", .scalar, some 4, [], 0, 6, Span.upTo 31 34⟩,
    ⟨none, some "a", .scalar, some 4, [], 1, 7, Span.upTo 34 41⟩,
    ⟨some "name", some "$\x7b\x7b needs.", .scalar, some 3, [], 1, 8, Span.upTo 41 57⟩]⟩

/-- The request at the end of `repeatedNeedText`. -/
def repeatedNeedRequest : Request :=
  ⟨repeatedNeedText, 57, some ⟨["needs"], "", Span.upTo 57 57⟩,
    ⟨some repeatedNeedTree, .workflow, 57⟩, ⟨some repeatedNeedTree, .workflow, 57⟩⟩

/-- **A job that is written twice is offered twice.** -/
theorem labels_repeatedNeed :
    ofText repeatedNeedText .workflow 57 = .ok repeatedNeedRequest ∧
      (repeatedNeedRequest.itemsIn (Catalog.empty : Catalog (StateM Unit)) ()).map Item.label
        = ["a", "a"] ∧
      ¬ ((repeatedNeedRequest.itemsIn (Catalog.empty : Catalog (StateM Unit)) ()).map
        Item.label).Nodup := by
  have hdecode : Tree.decode? repeatedNeedText = .ok (some repeatedNeedTree) := by decide +kernel
  have hcut : repeatedNeedText.cut (repeatedNeedText.caretLineEnd 57)
      = .ok (repeatedNeedText, []) := by decide +kernel
  have hpartial : Tree.decodePartial? repeatedNeedText = .ok (some repeatedNeedTree) := by
    rw [Tree.decodePartial?, Tree.decodeFirst?, hdecode]
    rfl
  have hr : ofText repeatedNeedText .workflow 57 = .ok repeatedNeedRequest :=
    ofText_eq (by decide) hcut hpartial hdecode (by decide +kernel)
  have hlabels : (repeatedNeedRequest.itemsIn (Catalog.empty : Catalog (StateM Unit)) ()).map
      Item.label = ["a", "a"] := by decide +kernel
  exact ⟨hr, hlabels, by rw [hlabels]; decide⟩

end Request

end WorkflowLens
