import WorkflowLens.Proofs.Index.Collect
import WorkflowLens.Proofs.Index.Scopes
import WorkflowLens.Proofs.Tree.Walk

/-!
# What a workflow declares for its callers

Inputs, outputs and secrets are declared under the triggers of a workflow, and the inputs and
outputs of an action at its top level.  The words recur everywhere: a job has outputs, a job that
calls a workflow has secrets, and a job or an input can be called `outputs` as well.  The collection
visits all nodes with the word for a key and keeps those that stand in the right place, which is a
matter of locations.

All places for one word are equally deep, so none of them is inside of another one.  The nodes are
met in the order of the document, and the children of one of them come before those of the next.  So
the names that are collected are in the order of the document too.

For outputs and secrets the place is `on.workflow_call` alone.  For inputs the name of the trigger
is not asked, although only `workflow_call` and `workflow_dispatch` have inputs.

* `isTriggerField`, `Tree.namesUnder`: the places, and the names declared there.
* `Tree.IsPreorder.names_collect_eq`: what is collected by a role is what is declared at the places
  that have it.
* `Index.names_outputs_secrets_spec`: where outputs and secrets come from.
* `Index.names_inputs_spec`: where inputs come from, and when that is where they should come from.
-/

namespace WorkflowLens

open WorkflowLens.Tree (Step root)

/-! ## Places -/

/-- Whether a location is that of a field of a trigger.  The triggers stand under `on`, which may
have been read as `true`, and a trigger is an entry or an item there. -/
def isTriggerField (isTrigger : Step → Bool) (field : String) : List Step → Bool
  | [.key on, trigger, .key last] =>
    (on == "on" || on == "true") && isTrigger trigger && last == field
  | _ => false

/-- Whether a trigger is that for calls by other workflows. -/
def isCall (trigger : Step) : Bool := trigger == .key "workflow_call"

/-- Whether a trigger is one of the two that are documented to have inputs. -/
def takesInputs (trigger : Step) : Bool :=
  trigger == .key "workflow_call" || trigger == .key "workflow_dispatch"

/-- Whether a location is that of a top-level field. -/
def isTopField (field : String) (l : List Step) : Bool := l == [.key field]

theorem isTriggerField_iff {isTrigger : Step → Bool} {field : String} {l : List Step} :
    isTriggerField isTrigger field l = true ↔
      ∃ on trigger, (on = "on" ∨ on = "true") ∧ isTrigger trigger = true ∧
        l = [.key on, trigger, .key field] := by
  constructor
  · intro h
    unfold isTriggerField at h
    split at h
    · next on trigger last =>
      simp only [Bool.and_eq_true, Bool.or_eq_true, beq_iff_eq] at h
      exact ⟨on, trigger, h.1.1, h.1.2, by rw [h.2]⟩
    · cases h
  · rintro ⟨on, trigger, hon, htrigger, rfl⟩
    simpa [isTriggerField, htrigger] using hon

/-- Every trigger is of a kind or of the other kind. -/
theorem isTriggerField_eq_or (isTrigger : Step → Bool) {field : String} {l : List Step} :
    isTriggerField (fun _ => true) field l
      = (isTriggerField isTrigger field l || isTriggerField (!isTrigger ·) field l) := by
  rw [Bool.eq_iff_iff, Bool.or_eq_true, isTriggerField_iff, isTriggerField_iff, isTriggerField_iff]
  constructor
  · rintro ⟨on, trigger, hon, -, rfl⟩
    cases htrigger : isTrigger trigger with
    | true => exact .inl ⟨on, trigger, hon, htrigger, rfl⟩
    | false => exact .inr ⟨on, trigger, hon, by rw [htrigger]; rfl, rfl⟩
  · rintro (⟨on, trigger, hon, -, rfl⟩ | ⟨on, trigger, hon, -, rfl⟩)
    · exact ⟨on, trigger, hon, rfl, rfl⟩
    · exact ⟨on, trigger, hon, rfl, rfl⟩

namespace Tree

/-- The names of the children of those nodes whose locations satisfy `isPlace`, in the order of the
document. -/
def namesUnder (t : Tree) (isPlace : List Step → Bool) : List String :=
  ((List.range t.size).filter fun n =>
    (t.parent? n).any fun p => isPlace (t.location p)).filterMap t.name?

/-- Whether a node is a field of a trigger. -/
def isFieldOf (t : Tree) (isTrigger : Step → Bool) (n : Nat) : Bool :=
  (t.parent? n).any fun call => isTrigger (t.step call) && (t.parent? call).any t.isTriggerRoot

variable {t : Tree}

theorem mem_namesUnder_iff {isPlace : List Step → Bool} {name : String} :
    name ∈ t.namesUnder isPlace ↔
      ∃ p n, isPlace (t.location p) = true ∧ t.parent? n = some p ∧ t.name? n = some name := by
  simp only [namesUnder, List.mem_filterMap, List.mem_filter, List.mem_range, Option.any_eq_true]
  constructor
  · rintro ⟨n, ⟨-, p, hp, hplace⟩, hname⟩
    exact ⟨p, n, hplace, hp, hname⟩
  · rintro ⟨p, n, hplace, hp, hname⟩
    exact ⟨n, ⟨lt_size_of_parent hp, p, hp, hplace⟩, hname⟩

/-- Places at which no node has a child with a name do not matter. -/
theorem namesUnder_congr {isPlace isPlace' : List Step → Bool}
    (hsame : ∀ p n name, t.parent? n = some p → t.name? n = some name →
      isPlace (t.location p) = isPlace' (t.location p)) :
    t.namesUnder isPlace = t.namesUnder isPlace' := by
  rw [namesUnder, namesUnder, List.filterMap_filter, List.filterMap_filter]
  congr 1
  funext n
  cases hname : t.name? n with
  | none => simp
  | some name =>
    cases hparent : t.parent? n with
    | none => rfl
    | some p => rw [Option.any_some, Option.any_some, hsame p n name hparent hname]

theorem isWorkflowCallChild_eq : t.isWorkflowCallChild = t.isFieldOf isCall := by
  funext n
  rw [isWorkflowCallChild, isFieldOf]
  congr 1
  funext call
  congr 1
  rw [Bool.eq_iff_iff, hasName_iff, isCall, beq_iff_eq, step_eq_key_iff]

theorem any_isTriggerRoot_eq (n : Nat) :
    ((t.parent? n).bind t.parent?).any t.isTriggerRoot = t.isFieldOf (fun _ => true) n := by
  rw [isFieldOf]
  cases t.parent? n <;> rfl

namespace IsPreorder

variable (h : t.IsPreorder)
include h

/-! ## Roles by locations -/

theorem isTriggerRoot_iff {n : Nat} (hn : n < t.size) :
    t.isTriggerRoot n = true ↔ ∃ on, (on = "on" ∨ on = "true") ∧ t.location n = [.key on] := by
  have hname : ∀ name, (t.hasName name n && t.isTopLevel n) = true ↔ t.location n = [.key name] :=
    fun _ => h.hasName_and_isTopLevel_iff hn
  simp only [isTriggerRoot, Bool.and_or_distrib_right, Bool.or_eq_true, hname, or_and_right,
    exists_or, exists_eq_left]

theorem isFieldOf_iff {isTrigger : Step → Bool} {field : String} {n : Nat} (hn : n < t.size) :
    t.name? n = some field ∧ t.isFieldOf isTrigger n = true ↔
      isTriggerField isTrigger field (t.location n) = true := by
  rw [isTriggerField_iff, isFieldOf, Option.any_eq_true]
  simp only [Bool.and_eq_true, Option.any_eq_true]
  constructor
  · rintro ⟨hname, call, hcall, htrigger, top, htop, hroot⟩
    obtain ⟨on, hon, hl⟩ := (h.isTriggerRoot_iff (h.parent_lt_size htop)).mp hroot
    refine ⟨on, t.step call, hon, htrigger, ?_⟩
    rw [h.location_of_parent hcall, h.location_of_parent htop, hl, step_eq_key_iff.mpr hname]
    rfl
  · rintro ⟨on, trigger, hon, htrigger, hl⟩
    obtain ⟨call, hcall, hup, hstep⟩ :=
      (h.location_eq_append_iff hn (l := [.key on, trigger])).mp hl
    obtain ⟨top, htop, hroot, rfl⟩ :=
      (h.location_eq_append_iff (h.parent_lt_size hcall) (l := [.key on])).mp hup
    exact ⟨step_eq_key_iff.mp hstep, call, hcall, htrigger, top, htop,
      (h.isTriggerRoot_iff (h.parent_lt_size htop)).mpr ⟨on, hon, hroot⟩⟩

/-! ## The order of what is collected -/

/-- A node whose location is no longer than that of a node after it ends before that node begins. -/
theorem stop_le_of_length_location {a b : Nat} (hb : b < t.size) (hlt : a < b)
    (hlength : (t.location b).length ≤ (t.location a).length) : t.stop a ≤ b := by
  by_contra hover
  obtain ⟨p, hp, hap⟩ :=
    h.exists_parent_of_inside (Nat.lt_trans hlt hb) hlt (Nat.lt_of_not_le hover)
  have hplt := h.parent_lt hp
  have hmem : a ∈ t.ancestorsOrSelf p :=
    (h.mem_ancestorsOrSelf_iff (h.parent_lt_size hp)).mpr ⟨hap, by omega⟩
  have hprefix := (h.isPrefix_location_iff (h.parent_lt_size hp)).mpr ⟨a, hmem, rfl⟩
  have hle := hprefix.length_le
  rw [h.location_of_parent hp, List.length_append, List.length_singleton] at hlength
  omega

variable {field : String} {role : Nat → Bool} {isPlace : List Step → Bool} {depth : Nat}
  (hrole : ∀ p < t.size, t.name? p = some field ∧ role p = true ↔ isPlace (t.location p) = true)
  (hdepth : ∀ l, isPlace l = true → l.length = depth)
include hrole hdepth

omit hdepth in
theorem mem_filter_flatMap_children_iff {n : Nat} :
    n ∈ (((t.nodesWhere root (t.hasName field)).flatMap t.children).filter
        fun n => (t.parent? n).any role) ↔
      ∃ p, t.parent? n = some p ∧ isPlace (t.location p) = true := by
  simp only [List.mem_filter, List.mem_flatMap, h.mem_nodesWhere_root_iff, hasName_iff,
    Option.any_eq_true]
  constructor
  · rintro ⟨⟨p, ⟨hp, hname⟩, hchild⟩, q, hq, hqrole⟩
    rw [h.mem_children_iff hp] at hchild
    obtain rfl := Option.some.inj (hchild.symm.trans hq)
    exact ⟨p, hq, (hrole p hp).mp ⟨hname, hqrole⟩⟩
  · rintro ⟨p, hparent, hplace⟩
    have hp := h.parent_lt_size hparent
    obtain ⟨hname, hprole⟩ := (hrole p hp).mpr hplace
    exact ⟨⟨p, ⟨hp, hname⟩, (h.mem_children_iff hp).mpr hparent⟩, p, hparent, hprole⟩

/-- Nodes with equally long locations are not inside of each other, so the children of all of them
are met in order. -/
theorem pairwise_lt_filter_flatMap_children :
    (((t.nodesWhere root (t.hasName field)).flatMap t.children).filter
      fun n => (t.parent? n).any role).Pairwise (· < ·) := by
  refine ((h.pairwise_flatMap_children _).filter _).imp_of_mem ?_
  rintro n m hn hm ⟨a, b, ha, hb, hlt⟩
  -- the location of the parent of a node that is kept
  have hlocation : ∀ {n p}, n ∈ (((t.nodesWhere root (t.hasName field)).flatMap t.children).filter
      fun n => (t.parent? n).any role) → t.parent? n = some p → (t.location p).length = depth := by
    intro n p hn hp
    obtain ⟨q, hq, hplace⟩ := (h.mem_filter_flatMap_children_iff hrole).mp hn
    obtain rfl := Option.some.inj (hq.symm.trans hp)
    exact hdepth _ hplace
  rcases hlt with hab | ⟨-, hnm⟩
  · have hlength : (t.location b).length ≤ (t.location a).length := by
      rw [hlocation hn ha, hlocation hm hb]
    have hstop := h.stop_le_of_length_location (h.parent_lt_size hb) hab hlength
    have hinside := h.stop_le_stop_of_parent ha
    have hnstop := h.lt_stop (lt_size_of_parent ha)
    have hbm := h.parent_lt hb
    omega
  · exact hnm

/-- The children that are collected are those of the nodes at the places, in order. -/
theorem filter_flatMap_children_eq :
    (((t.nodesWhere root (t.hasName field)).flatMap t.children).filter
        fun n => (t.parent? n).any role)
      = (List.range t.size).filter fun n => (t.parent? n).any fun p => isPlace (t.location p) := by
  refine (h.pairwise_lt_filter_flatMap_children hrole hdepth).eq_of_mem_iff
    (List.Pairwise.filter _ List.pairwise_lt_range) fun n => ?_
  rw [h.mem_filter_flatMap_children_iff hrole, List.mem_filter, List.mem_range, Option.any_eq_true]
  constructor
  · rintro ⟨p, hparent, hplace⟩
    exact ⟨lt_size_of_parent hparent, p, hparent, hplace⟩
  · rintro ⟨-, hplace⟩
    exact hplace

/-- The names that are collected are those of the children of the nodes at certain places. -/
theorem names_collect_eq (text : Nat → String) :
    (t.collect field (fun n => (t.parent? n).any role) t.name? text).names
      = (t.namesUnder isPlace).eraseDups := by
  rw [names_collect, h.filter_flatMap_children_eq hrole hdepth, namesUnder]

end IsPreorder

end Tree

/-! ## Indexes -/

namespace Index

/-- The names under the places of a document, none without a tree. -/
def namesUnder (ix : Index) (isPlace : List Step → Bool) : List String :=
  (ix.tree.map fun t => t.namesUnder isPlace).getD []

/-- The tree of the index, if there is one, is that of a document. -/
def IsOfDocument (ix : Index) : Prop := ∀ t, ix.tree = some t → ∃ text, t.IsLocated text

theorem tree_ofTree (tree : Option Tree) (kind : DocumentKind) (caret : Nat) :
    (ofTree tree kind caret).tree = tree := rfl

/-- The index of a text is that of a document, be it the whole text or the one up to a caret. -/
theorem isOfDocument_of_text {text : Text} {kind : DocumentKind} {caret : Nat} {ix : Index}
    (hix : ofText text kind caret = .ok ix ∨ ofTextUpToCaret text kind caret = .ok ix) :
    ix.IsOfDocument := by
  intro t ht
  rcases hix with hix | hix
  · obtain ⟨found, hfound⟩ := Tree.exists_decode?_eq text
    rw [ofText, hfound] at hix
    obtain rfl := Except.ok.inj hix
    rw [tree_ofTree] at ht
    exact ⟨text, Tree.isLocated_of_decode? (by rw [hfound, ht])⟩
  · rw [ofTextUpToCaret] at hix
    cases hcut : text.cut (text.caretLineEnd caret) with
    | error fault =>
      rw [hcut] at hix
      cases hix
    | ok parts =>
      cases hfound : Tree.decodePartial? parts.1 with
      | error fault =>
        simp only [hcut, bind, Except.bind, hfound] at hix
        cases hix
      | ok found =>
        simp only [hcut, bind, Except.bind, hfound] at hix
        obtain rfl := Except.ok.inj hix
        rw [tree_ofTree] at ht
        exact Tree.exists_isLocated_of_decodePartial? (by rw [hfound, ht])

variable {ix : Index} (h : ix.IsOfDocument)

theorem mem_namesUnder_iff {isPlace : List Step → Bool} {name : String} :
    name ∈ ix.namesUnder isPlace ↔
      ∃ t, ix.tree = some t ∧ ∃ p n, isPlace (t.location p) = true ∧ t.parent? n = some p ∧
        t.name? n = some name := by
  rw [namesUnder]
  cases htree : ix.tree with
  | none => simp
  | some t =>
    rw [Option.map_some, Option.getD_some, Tree.mem_namesUnder_iff]
    simp

include h

theorem names_collect_eq {field : String} {role : Tree → Nat → Bool} {isPlace : List Step → Bool}
    (depth : Nat)
    (hrole : ∀ t : Tree, t.IsPreorder → ∀ p < t.size,
      t.name? p = some field ∧ role t p = true ↔ isPlace (t.location p) = true)
    (hdepth : ∀ l, isPlace l = true → l.length = depth) (text : Tree → Nat → String) :
    (ix.collect field (fun t n => (t.parent? n).any (role t)) Tree.name? text).names
      = (ix.namesUnder isPlace).eraseDups := by
  rw [Index.collect, dictionary, namesUnder]
  cases htree : ix.tree with
  | none => rfl
  | some t =>
    obtain ⟨_, hlocated⟩ := h t htree
    exact hlocated.isPreorder.names_collect_eq (hrole t hlocated.isPreorder) hdepth (text t)

/-- What is collected from the fields of triggers. -/
theorem names_collect_isFieldOf (isTrigger : Step → Bool) (field : String)
    (text : Tree → Nat → String) :
    (ix.collect field (fun t n => (t.parent? n).any (t.isFieldOf isTrigger)) Tree.name? text).names
      = (ix.namesUnder (isTriggerField isTrigger field)).eraseDups := by
  refine names_collect_eq h 3 (fun t ht p hp => ht.isFieldOf_iff hp) (fun l hl => ?_) text
  obtain ⟨_, _, -, -, rfl⟩ := isTriggerField_iff.mp hl
  rfl

/-- What is collected from a top-level field. -/
theorem names_collect_isTopLevel (field : String) (text : Tree → Nat → String) :
    (ix.collect field (fun t n => (t.parent? n).any t.isTopLevel) Tree.name? text).names
      = (ix.namesUnder (isTopField field)).eraseDups := by
  refine names_collect_eq h 1 (fun t ht p hp => ?_) (fun l hl => ?_) text
  · rw [isTopField, beq_iff_eq, ← ht.hasName_and_isTopLevel_iff hp, Bool.and_eq_true,
      Tree.hasName_iff]
  · rw [isTopField, beq_iff_eq] at hl
    rw [hl]
    rfl

/-! ## Outputs and secrets -/

/-- **Outputs and secrets come only from where they are declared.**  The outputs and secrets of a
workflow are those of its trigger for calls, and the outputs of an action those at its top level, in
the order of the document and each of them once.  The implicit secret comes last unless it is
declared. -/
theorem names_outputs_secrets_spec :
    (ix.kind ≠ .action →
      ix.outputs.names = (ix.namesUnder (isTriggerField isCall "outputs")).eraseDups) ∧
    (ix.kind = .action → ix.outputs.names = (ix.namesUnder (isTopField "outputs")).eraseDups) ∧
    (ix.secrets.names = (ix.namesUnder (isTriggerField isCall "secrets")).eraseDups
      ++ if implicitSecret ∈ ix.namesUnder (isTriggerField isCall "secrets") then []
        else [implicitSecret]) ∧
    ix.secrets.names.count implicitSecret = 1 := by
  have hsecrets : ix.secrets.names = (ix.namesUnder (isTriggerField isCall "secrets")).eraseDups
      ++ if implicitSecret ∈ ix.namesUnder (isTriggerField isCall "secrets") then []
        else [implicitSecret] := by
    simp only [secrets, Tree.isWorkflowCallChild_eq]
    rw [Dictionary.names_insertNew, names_collect_isFieldOf h]
    by_cases hdeclared : implicitSecret ∈ ix.namesUnder (isTriggerField isCall "secrets")
    · rw [if_pos (List.mem_eraseDups.mpr hdeclared), if_pos hdeclared, List.append_nil]
    · rw [if_neg fun hmem => hdeclared (List.mem_eraseDups.mp hmem), if_neg hdeclared]
  have himplicit : implicitSecret ∈ ix.secrets.names := by
    rw [hsecrets, List.mem_append, List.mem_eraseDups]
    by_cases hdeclared : implicitSecret ∈ ix.namesUnder (isTriggerField isCall "secrets")
    · exact .inl hdeclared
    · rw [if_neg hdeclared]
      exact .inr (List.mem_singleton_self _)
  refine ⟨fun hkind => ?_, fun hkind => ?_, hsecrets,
    List.count_eq_one_of_mem ix.secrets.nodup_names himplicit⟩
  · rw [← names_collect_isFieldOf h isCall "outputs" Tree.description, outputs]
    cases hk : ix.kind with
    | action => exact absurd hk hkind
    | workflow => simp only [Tree.isWorkflowCallChild_eq]
    | other => simp only [Tree.isWorkflowCallChild_eq]
  · rw [← names_collect_isTopLevel h "outputs" Tree.description, outputs, hkind]

omit h

/-- A document with inputs, outputs and secrets in all places. -/
def callableText : Text :=
  ("on:\n  workflow_call:\n    inputs:\n      version: x\n    outputs:\n      digest: x\n" ++
    "    secrets:\n      TOKEN: x\n  workflow_dispatch:\n    inputs:\n      dry: x\n" ++
    "    outputs:\n      lost: x\noutputs:\n  top: x\ninputs:\n  here: x\n").toList

/-- The tree of `callableText`. -/
def callableTree : Tree :=
  ⟨#[⟨none, none, .mapping, none, [1, 14, 16], 0, 18, Span.upTo 0 216⟩,
    ⟨some "on", none, .mapping, some 0, [2, 9], 0, 14, Span.upTo 0 180⟩,
    ⟨some "workflow_call", none, .mapping, some 1, [3, 5, 7], 0, 9, Span.upTo 6 109⟩,
    ⟨some "inputs", none, .mapping, some 2, [4], 0, 5, Span.upTo 25 54⟩,
    ⟨some "version", some "x", .scalar, some 3, [], 0, 5, Span.upTo 39 54⟩,
    ⟨some "outputs", none, .mapping, some 2, [6], 1, 7, Span.upTo 54 83⟩,
    ⟨some "digest", some "x", .scalar, some 5, [], 0, 7, Span.upTo 69 83⟩,
    ⟨some "secrets", none, .mapping, some 2, [8], 2, 9, Span.upTo 83 109⟩,
    ⟨some "TOKEN", some "x", .scalar, some 7, [], 0, 9, Span.upTo 98 109⟩,
    ⟨some "workflow_dispatch", none, .mapping, some 1, [10, 12], 1, 14, Span.upTo 109 180⟩,
    ⟨some "inputs", none, .mapping, some 9, [11], 0, 12, Span.upTo 132 157⟩,
    ⟨some "dry", some "x", .scalar, some 10, [], 0, 12, Span.upTo 146 157⟩,
    ⟨some "outputs", none, .mapping, some 9, [13], 1, 14, Span.upTo 157 180⟩,
    ⟨some "lost", some "x", .scalar, some 12, [], 0, 14, Span.upTo 172 180⟩,
    ⟨some "outputs", none, .mapping, some 0, [15], 1, 16, Span.upTo 180 198⟩,
    ⟨some "top", some "x", .scalar, some 14, [], 0, 16, Span.upTo 191 198⟩,
    ⟨some "inputs", none, .mapping, some 0, [17], 2, 18, Span.upTo 198 216⟩,
    ⟨some "here", some "x", .scalar, some 16, [], 0, 18, Span.upTo 208 216⟩]⟩

/-- The index of `callableText` as a workflow or as an action. -/
theorem ofText_callableText {kind : DocumentKind} (hkind : kind ≠ .other) :
    ofText callableText kind 0 = .ok ⟨some callableTree, kind, 0⟩ := by
  have hdecode : Tree.decode? callableText = .ok (some callableTree) := by decide +kernel
  rw [ofText, hdecode]
  cases kind with
  | other => exact absurd rfl hkind
  | workflow => rfl
  | action => rfl

/-- As a workflow the document has the output of its trigger for calls, and as an action the one at
the top level. -/
theorem names_outputs_callableTree :
    let ix : Index := ⟨some callableTree, .workflow, 0⟩
    let action : Index := ⟨some callableTree, .action, 0⟩
    ix.IsOfDocument ∧ action.IsOfDocument ∧ ix.kind ≠ .action ∧ action.kind = .action ∧
      ix.outputs.names = ["digest"] ∧ ix.secrets.names = ["TOKEN", "GITHUB_TOKEN"] ∧
      action.outputs.names = ["top"] := by
  intro ix action
  have hix : ix.IsOfDocument := isOfDocument_of_text (.inl (ofText_callableText (by decide)))
  have haction : action.IsOfDocument :=
    isOfDocument_of_text (.inl (ofText_callableText (by decide)))
  have hkind : ix.kind ≠ .action := by decide
  have hspec := names_outputs_secrets_spec hix
  exact ⟨hix, haction, hkind, rfl, (hspec.1 hkind).trans (by decide),
    hspec.2.2.1.trans (by decide), ((names_outputs_secrets_spec haction).2.1 rfl).trans (by decide)⟩

/-! ## Inputs -/

/-- The places for inputs are those of the documented triggers and those of all others. -/
theorem mem_namesUnder_inputs_iff {name : String} :
    name ∈ ix.namesUnder (isTriggerField (fun _ => true) "inputs") ↔
      name ∈ ix.namesUnder (isTriggerField takesInputs "inputs") ∨
        name ∈ ix.namesUnder (isTriggerField (!takesInputs ·) "inputs") := by
  simp only [mem_namesUnder_iff, isTriggerField_eq_or takesInputs, Bool.or_eq_true, or_and_right,
    exists_or, and_or_left]

/-- If other triggers declare no inputs, only those of the documented ones are left. -/
theorem namesUnder_inputs_eq
    (hnone : ix.namesUnder (isTriggerField (!takesInputs ·) "inputs") = []) :
    ix.namesUnder (isTriggerField (fun _ => true) "inputs")
      = ix.namesUnder (isTriggerField takesInputs "inputs") := by
  rw [namesUnder, namesUnder]
  cases htree : ix.tree with
  | none => rfl
  | some t =>
    rw [Option.map_some, Option.map_some, Option.getD_some, Option.getD_some]
    refine Tree.namesUnder_congr fun p n name hp hname => ?_
    rw [isTriggerField_eq_or takesInputs]
    cases hother : isTriggerField (!takesInputs ·) "inputs" (t.location p) with
    | false => rw [Bool.or_false]
    | true =>
      have hmem : name ∈ ix.namesUnder (isTriggerField (!takesInputs ·) "inputs") :=
        mem_namesUnder_iff.mpr ⟨t, htree, p, n, hother, hp, hname⟩
      rw [hnone] at hmem
      cases hmem

/-- **Inputs come from all triggers.**  The inputs of a workflow are those that any trigger
declares, in the order of the document and each of them once.  They are the inputs that the two
documented triggers declare if and only if every other trigger repeats what these declare; and if
the other triggers declare none, they are in the same order as well.  The inputs of an action are
those at its top level. -/
theorem names_inputs_spec (h : ix.IsOfDocument) :
    (ix.kind ≠ .action →
      ix.inputs.names = (ix.namesUnder (isTriggerField (fun _ => true) "inputs")).eraseDups ∧
      ((∀ name, name ∈ ix.inputs.names ↔
          name ∈ ix.namesUnder (isTriggerField takesInputs "inputs")) ↔
        ∀ name ∈ ix.namesUnder (isTriggerField (!takesInputs ·) "inputs"),
          name ∈ ix.namesUnder (isTriggerField takesInputs "inputs")) ∧
      (ix.namesUnder (isTriggerField (!takesInputs ·) "inputs") = [] →
        ix.inputs.names = (ix.namesUnder (isTriggerField takesInputs "inputs")).eraseDups)) ∧
    (ix.kind = .action → ix.inputs.names = (ix.namesUnder (isTopField "inputs")).eraseDups) := by
  constructor
  · intro hkind
    have hnames : ix.inputs.names
        = (ix.namesUnder (isTriggerField (fun _ => true) "inputs")).eraseDups := by
      rw [← names_collect_isFieldOf h (fun _ => true) "inputs" Tree.description, inputs]
      cases hk : ix.kind with
      | action => exact absurd hk hkind
      | workflow => simp only [Tree.any_isTriggerRoot_eq]
      | other => simp only [Tree.any_isTriggerRoot_eq]
    refine ⟨hnames, ?_, fun hnone => by rw [hnames, namesUnder_inputs_eq hnone]⟩
    simp only [hnames, List.mem_eraseDups, mem_namesUnder_inputs_iff, or_iff_left_iff_imp]
  · intro hkind
    rw [← names_collect_isTopLevel h "inputs" Tree.description, inputs, hkind]

/-- Only the documented triggers of the document declare inputs. -/
theorem names_inputs_callableTree :
    let ix : Index := ⟨some callableTree, .workflow, 0⟩
    let action : Index := ⟨some callableTree, .action, 0⟩
    ix.IsOfDocument ∧ action.IsOfDocument ∧ ix.kind ≠ .action ∧ action.kind = .action ∧
      ix.namesUnder (isTriggerField (!takesInputs ·) "inputs") = [] ∧
      ix.inputs.names = ["version", "dry"] ∧ action.inputs.names = ["here"] := by
  intro ix action
  have hix : ix.IsOfDocument := isOfDocument_of_text (.inl (ofText_callableText (by decide)))
  have haction : action.IsOfDocument :=
    isOfDocument_of_text (.inl (ofText_callableText (by decide)))
  have hkind : ix.kind ≠ .action := by decide
  have hnone : ix.namesUnder (isTriggerField (!takesInputs ·) "inputs") = [] := by decide
  exact ⟨hix, haction, hkind, rfl, hnone,
    (((names_inputs_spec hix).1 hkind).2.2 hnone).trans (by decide),
    ((names_inputs_spec haction).2 rfl).trans (by decide)⟩

/-- A workflow with inputs under a trigger that has none. -/
def pushInputsText : Text := "on:\n  push:\n    inputs:\n      a: x\n".toList

/-- The tree of `pushInputsText`. -/
def pushInputsTree : Tree :=
  ⟨#[⟨none, none, .mapping, none, [1], 0, 5, Span.upTo 0 35⟩,
    ⟨some "on", none, .mapping, some 0, [2], 0, 5, Span.upTo 0 35⟩,
    ⟨some "push", none, .mapping, some 1, [3], 0, 5, Span.upTo 6 35⟩,
    ⟨some "inputs", none, .mapping, some 2, [4], 0, 5, Span.upTo 16 35⟩,
    ⟨some "a", some "x", .scalar, some 3, [], 0, 5, Span.upTo 30 35⟩]⟩

/-- **An input of another trigger is offered.** -/
theorem names_inputs_pushInputsTree :
    let ix : Index := ⟨some pushInputsTree, .workflow, 0⟩
    Index.ofText pushInputsText .workflow 0 = .ok ix ∧ ix.inputs.names = ["a"] ∧
      ix.namesUnder (isTriggerField takesInputs "inputs") = [] ∧
      ¬ ∀ name, name ∈ ix.inputs.names ↔
        name ∈ ix.namesUnder (isTriggerField takesInputs "inputs") := by
  intro ix
  have hdecode : Tree.decode? pushInputsText = .ok (some pushInputsTree) := by decide +kernel
  have hoffered : ix.inputs.names = ["a"] := by decide
  have hdocumented : ix.namesUnder (isTriggerField takesInputs "inputs") = [] := by decide
  refine ⟨?_, hoffered, hdocumented, fun hall => ?_⟩
  · rw [Index.ofText, hdecode]
    rfl
  · have ha := (hall "a").mp (by rw [hoffered]; exact List.mem_singleton_self _)
    rw [hdocumented] at ha
    cases ha

end Index

end WorkflowLens
