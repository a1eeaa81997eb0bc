import WorkflowLens.Proofs.Completion.Inputs
import WorkflowLens.Proofs.Completion.Paths
import WorkflowLens.Proofs.Tree.Spans

/-!
# Answers that need no catalog

Completing hands the catalog of actions on to many places: to every depth of a path, and outside
of expressions to the node that stands for the caret's node, which may be that of one of its
ancestors, and then to the caret's node itself.  It is asked at two of them only.  One is the
third word of a path that begins with `steps`.  The other is a node in or at a block `with`, and
such a node has the key `with` in its location.

The location of a counterpart is a prefix of the location that is looked for.  So if the caret's
node has no key `with` on the way up, neither has its counterpart, whichever ancestor that is the
counterpart of, and the catalog is not asked in either tree.

* `NeedsNoCatalog`: an answer that is the same for all catalogs, none of which is asked.
* `Tree.IsLocated.key_mem_location_iff`: keys on the way up are keys in the location.
* `Request.resolve_eq_pure`: paths that need no catalog.
* `Request.structuralItems_eq_pure`: carets outside of expressions that need none.
* `Request.exists_needsNoCatalog`: both for the caret of a text.
-/

namespace WorkflowLens

/-- An answer that is the same whatever catalog is at hand, and for which no catalog is asked, so
that it has no effects either. -/
def NeedsNoCatalog {α : Type}
    (answer : {m : Type → Type} → [Monad m] → Catalog m → m α) : Prop :=
  ∃ a, ∀ {m : Type → Type} [Monad m] [LawfulMonad m] (catalog : Catalog m),
    answer catalog = pure a

/-! ## Keys in a location -/

section location

variable {t : Tree} {text : Text}

/-- The keys in the location of a node are the names on the way up. -/
theorem Tree.IsLocated.key_mem_location_iff (h : t.IsLocated text) {n : Nat} {name : String} :
    Step.key name ∈ t.location n ↔ ∃ a ∈ t.ancestorsOrSelf n, t.name? a = some name := by
  rw [location, List.mem_map]
  constructor
  · rintro ⟨a, ha, hstep⟩
    exact ⟨a, (List.mem_filter.mp (List.mem_reverse.mp ha)).1, step_eq_key_iff.mp hstep⟩
  · rintro ⟨a, ha, hname⟩
    refine ⟨a, List.mem_reverse.mpr (List.mem_filter.mpr ⟨ha, ?_⟩), step_eq_key_iff.mpr hname⟩
    rw [Bool.not_eq_true', ← Bool.not_eq_true, isRoot_iff]
    rintro rfl
    rw [h.name?_root] at hname
    cases hname

/-- Without the key `with` in its location a node is not in a block of inputs. -/
theorem Index.usesAround?_eq_none (h : t.IsLocated text) {n : Nat}
    (hno : Tree.Step.key "with" ∉ t.location n) : usesAround? t n = none := by
  rw [h.key_mem_location_iff] at hno
  push Not at hno
  have hself : ¬ t.hasName "with" n = true :=
    mt Tree.hasName_iff.mp (hno n (Tree.IsPreorder.self_mem_ancestorsOrSelf n))
  have hparent : (t.parent? n).filter (t.hasName "with") = none := by
    rw [Option.filter_eq_none_iff]
    intro p hp hname
    have hmem : p ∈ t.ancestorsOrSelf n := by
      rw [h.isPreorder.ancestorsOrSelf_of_parent hp]
      exact List.mem_cons_of_mem n (Tree.IsPreorder.self_mem_ancestorsOrSelf p)
    exact hno p hmem (Tree.hasName_iff.mp hname)
  rw [usesAround?, withNode?, if_neg hself, hparent]
  rfl

/-- The location of a counterpart is a prefix of the location that is looked for. -/
theorem Index.location_counterpart? {A B : Tree} {s u : Text} (hA : A.IsLocated s)
    (hB : B.IsLocated u) {ix : Index} (htree : ix.tree = some B) {n c : Nat} (hn : n < A.size)
    (hc : ix.counterpart? A n = some c) : B.location c <+: A.location n := by
  obtain ⟨below, m, above, hway, ⟨-, hstands, -⟩, -⟩ :=
    (counterpart?_eq_some_iff hA hB htree hn).mp hc
  rw [hstands.location_eq, hA.isPreorder.isPrefix_location_iff hn]
  refine ⟨m, ?_, rfl⟩
  rw [hway]
  exact List.mem_append_right _ (List.mem_cons_self ..)

end location

namespace Request

open Expression (Path)

variable {m : Type → Type} [Monad m] [LawfulMonad m] (catalog : Catalog m) (r : Request)

/-! ## Paths -/

theorem head?_of_ofSegments_eq_steps {segments : List String}
    (h : Context.ofSegments segments = .steps) : segments.head? = some "steps" := by
  cases segments with
  | nil => cases h
  | cons first rest =>
    change Context.ofSegment first = .steps at h
    unfold Context.ofSegment at h
    split_ifs at h with hsteps
    rw [List.head?_cons, hsteps]

omit [LawfulMonad m] in
theorem outputMembers_eq_pure {context : Context} (h : context ≠ .steps) (owner : String) :
    r.outputMembers catalog context owner
      = pure (r.outputMembers (m := Id) Catalog.empty context owner) := by
  cases context with
  | steps => exact absurd rfl h
  | _ => rfl

omit [LawfulMonad m] in
/-- The candidates of a depth need a catalog only at the outputs of a step. -/
theorem candidates_eq_pure {segments : List String} {depth : Nat}
    (h : depth = 2 → Context.ofSegments segments ≠ .steps) :
    r.candidates catalog segments depth
      = pure (r.candidates (m := Id) Catalog.empty segments depth) := by
  match depth with
  | 0 => rfl
  | 1 => rfl
  | 2 =>
    rw [candidates, candidates]
    cases segments[1]? with
    | none => rfl
    | some owner => exact r.outputMembers_eq_pure catalog (h rfl) owner
  | _ + 3 => rfl

/-- Following words needs no catalog if the candidates of the depths up to the last word need
none. -/
theorem follow_eq_pure {candidatesAt : Nat → m (List Item)} {fixed : Nat → List Item}
    (words : List String) : ∀ depth,
    (∀ d ≤ depth + words.length, candidatesAt d = pure (fixed d)) →
    follow candidatesAt depth (fixed depth) words = pure (followFixed fixed depth words) := by
  induction words with
  | nil => exact fun _ _ => rfl
  | cons word words ih =>
    intro depth h
    rw [List.length_cons] at h
    have hrest := ih (depth + 1) fun d hd => h d (by omega)
    rw [follow, followFixed_cons]
    by_cases hword : word ∈ (fixed depth).map Item.label
    · rw [if_pos (any_label_iff.mpr hword), if_pos hword, h (depth + 1) (by omega), pure_bind,
        hrest]
    · rw [if_neg (mt any_label_iff.mp hword), if_neg hword]

/-- A path needs a catalog only if it asks for the outputs of a step. -/
theorem resolve_eq_pure {path : Path}
    (h : ¬ (path.root? = some "steps" ∧ 3 ≤ path.segments.length)) :
    r.resolve catalog path = pure (r.resolve (m := Id) Catalog.empty path) := by
  have hcandidates : ∀ d ≤ 0 + (path.segments.drop 1).length,
      r.candidates catalog path.segments d
        = pure (r.candidates (m := Id) Catalog.empty path.segments d) := by
    intro d hd
    refine r.candidates_eq_pure catalog fun htwo hsteps =>
      h ⟨head?_of_ofSegments_eq_steps hsteps, ?_⟩
    rw [List.length_drop] at hd
    omega
  have hfollow := follow_eq_pure (path.segments.drop 1) 0 hcandidates
  rw [resolve, hcandidates 0 (Nat.zero_le _), pure_bind, hfollow, pure_bind]
  rfl

section path

variable {r} {path : Path} (hpath : r.path? = some path)
  (h : ¬ (path.root? = some "steps" ∧ 3 ≤ path.segments.length))
include hpath h

theorem needsNoCatalog_resolveAtCaret : NeedsNoCatalog r.resolveAtCaret := by
  refine ⟨r.resolve (m := Id) Catalog.empty path, fun catalog => ?_⟩
  show r.resolveAtCaret catalog = _
  rw [resolveAtCaret, hpath]
  exact resolve_eq_pure catalog r h

theorem needsNoCatalog_suggestions_of_path : NeedsNoCatalog r.suggestions := by
  refine ⟨Outcome.items (r.resolve (m := Id) Catalog.empty path), fun catalog => ?_⟩
  show r.suggestions catalog = _
  rw [suggestions, hpath]
  dsimp only
  rw [resolve_eq_pure catalog r h, pure_bind]

end path

/-! ## Outside of expressions -/

/-- The caret's node and all nodes above it have other keys than `with`. -/
def IsOutsideInputs : Prop :=
  ∀ T, r.upToCaret.tree = some T → ∀ a ∈ T.ancestorsOrSelf (T.nodeAt r.upToCaret.caret),
    T.name? a ≠ some "with"

section outside

variable {r} {text : Text} {kind : DocumentKind} {caret : Nat}
  (hr : ofText text kind caret = .ok r) (hout : r.IsOutsideInputs)
include hr hout

/-- Outside of blocks of inputs no inputs are asked for: neither at the counterpart of the caret's
node nor at the node itself. -/
theorem inputsAtCaret_eq_pure : r.inputsAtCaret catalog = pure Dictionary.empty := by
  cases hT : r.upToCaret.tree with
  | none =>
    rw [inputsAtCaret, hT]
  | some T =>
    obtain ⟨s, hTlocated⟩ := exists_isLocated_of_ofText hr (.inl hT)
    have hn := (hTlocated.nodeAt_spec r.upToCaret.caret).1
    have hno : Tree.Step.key "with" ∉ T.location (T.nodeAt r.upToCaret.caret) := by
      rw [hTlocated.key_mem_location_iff]
      rintro ⟨a, ha, hname⟩
      exact hout T hT a ha hname
    have hcurrent := Index.usesAround?_eq_none hTlocated hno
    cases hc : r.whole.counterpart? T (T.nodeAt r.upToCaret.caret) with
    | none =>
      simp only [inputsAtCaret, hT, hc, Index.actionInputsAt?_eq_none catalog hT hcurrent,
        pure_bind]
      rfl
    | some anchor =>
      obtain ⟨F, hF, -⟩ := Option.bind_eq_some_iff.mp hc
      obtain ⟨u, hFlocated⟩ := exists_isLocated_of_ofText hr (.inr hF)
      have habove := Index.location_counterpart? hTlocated hFlocated hF hn hc
      have hfound := Index.usesAround?_eq_none hFlocated fun hmem => hno (habove.subset hmem)
      have hcaret : r.upToCaret.currentNode? = some (T.nodeAt r.upToCaret.caret) := by
        rw [Index.currentNode?, Index.nodeAt?, hT]
        rfl
      exact inputsAtCaret_eq_empty catalog hT hF hcaret hc hfound hcurrent

/-- What is offered there: the other jobs in `needs`, and nothing elsewhere. -/
theorem structuralItems_eq_pure : r.structuralItems catalog
    = pure (if r.isInNeeds then Item.ofDictionary .needs r.otherJobs else []) := by
  rw [structuralItems]
  split
  · rfl
  · rw [inputsAtCaret_eq_pure catalog hr hout, pure_bind]
    rfl

theorem needsNoCatalog_suggestions_of_no_path (hpath : r.path? = none) :
    NeedsNoCatalog r.suggestions := by
  refine ⟨Item.matching (r.text.wordBefore r.caret)
    (if r.isInNeeds then Item.ofDictionary .needs r.otherJobs else []), fun catalog => ?_⟩
  show r.suggestions catalog = _
  rw [suggestions, hpath]
  dsimp only
  rw [structuralItems_eq_pure catalog hr hout, pure_bind]

end outside

/-- **Where the catalog does not matter.**  Every caret of every text has a request.  In an open
expression neither the items nor the end of the path need a catalog, unless the path begins with
`steps` and has two more words before the typed one.  Outside of expressions the items need none if
neither the caret's node nor a node above it has the key `with`. -/
theorem exists_needsNoCatalog (text : Text) (kind : DocumentKind) (caret : Nat) :
    ∃ r, ofText text kind caret = .ok r ∧ Path.atCaret? text caret = .ok r.path? ∧
      (∀ path, r.path? = some path → ¬ (path.root? = some "steps" ∧ 3 ≤ path.segments.length) →
        NeedsNoCatalog r.suggestions ∧ NeedsNoCatalog r.resolveAtCaret) ∧
      (r.path? = none → r.IsOutsideInputs → NeedsNoCatalog r.suggestions) := by
  obtain ⟨r, _, _, _, hr, -, hcaret, hpath, -⟩ := exists_ofText_eq text kind caret
  have hclamped : Path.atCaret? text (min caret text.byteSize) = Path.atCaret? text caret := by
    simp only [Path.atCaret?, Nat.min_assoc, Nat.min_self]
  refine ⟨r, hr, by rw [← hclamped, ← hcaret, hpath], fun path hsome hsteps => ?_,
    fun hnone hout => needsNoCatalog_suggestions_of_no_path hr hout hnone⟩
  exact ⟨needsNoCatalog_suggestions_of_path hsome hsteps,
    needsNoCatalog_resolveAtCaret hsome hsteps⟩

end Request

end WorkflowLens
