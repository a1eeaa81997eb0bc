import WorkflowLens.Completion.Suggestions
import WorkflowLens.Proofs.Completion.Safety
import WorkflowLens.Proofs.Index.Inputs

/-!
# Inputs at the caret

At a key of a block `with` the inputs of the action are offered that the block does not have yet,
and the key itself, which is still being typed.  The block is that of the whole document, so that
keys after the caret count as well, and the key is looked for there.

The key is found only if its text matches: what is read up to the caret's line must be a beginning
of what is read of the whole document, or the other way round.  A text of more lines has none of
them yet at the caret, and an empty text is no beginning.  Then the block is found instead, at
which no key is being typed, and the key is no longer offered.

* `Request.offeredInputs`: what is to be offered for a key.
* `Request.inputsAtCaret_eq`: the inputs at the caret by the node that is found.
* `Request.labels_at_key_spec`: what is offered for a key, and when it is what is to be offered.
* `Request.labels_blockText`: a key that is not offered.
-/

namespace WorkflowLens.Request

/-- What is to be offered for a key of a block: the inputs that go with what has been typed, in
their order, without the names of the other keys. -/
def offeredInputs (F : Tree) (block : Nat) (key : String) (typed : Text) (inputs : Dictionary) :
    List String :=
  inputs.names.filter fun name => Text.fuzzyMatches typed name.toList ∧
    (name = key ∨ ¬ ∃ c ∈ F.children block, F.name? c = some name)

/-- The labels of the items at the caret, for a catalog in a given state. -/
def labelsIn {σ : Type} (r : Request) (catalog : Catalog (StateM σ)) (s : σ) : List String :=
  ((r.suggestions catalog).run s).1.map Item.label

/-! ## Labels -/

theorem map_label_matching (typed : Text) (items : List Item) :
    (Item.matching typed items).map Item.label
      = (items.map Item.label).filter fun name => Text.fuzzyMatches typed name.toList := by
  rw [Item.matching, List.filter_map]
  rfl

theorem map_label_keyItems (kind : ItemKind) (d : Dictionary) :
    ((Item.ofDictionary kind d).map keyItem).map Item.label = d.names := by
  have hlabel : Item.label ∘ keyItem = Item.label := rfl
  rw [List.map_map, hlabel, Item.ofDictionary, Item.map_label_ofPairs]
  rfl

section suggestions

variable {m : Type → Type} [Monad m] [LawfulMonad m] {r : Request} (catalog : Catalog m)

/-- Outside of expressions and of `needs` the labels are the names of the inputs that go with what
has been typed. -/
theorem map_label_suggestions (hpath : r.path? = none) (hneeds : r.isInNeeds = false) :
    List.map Item.label <$> r.suggestions catalog
      = (fun inputs => inputs.names.filter fun name =>
          Text.fuzzyMatches (r.text.wordBefore r.caret) name.toList)
          <$> r.inputsAtCaret catalog := by
  rw [suggestions, hpath, structuralItems, hneeds]
  simp only [Bool.false_eq_true, if_false, bind_pure_comp, Functor.map_map, map_label_matching,
    map_label_keyItems]

/-- At `needs` the labels are the names of the other jobs. -/
theorem map_label_suggestions_needs (hpath : r.path? = none) (hneeds : r.isInNeeds = true) :
    List.map Item.label <$> r.suggestions catalog
      = pure (r.otherJobs.names.filter fun name =>
          Text.fuzzyMatches (r.text.wordBefore r.caret) name.toList) := by
  rw [suggestions, hpath, structuralItems, hneeds]
  simp only [if_true, pure_bind, map_pure, map_label_matching, Item.ofDictionary,
    Item.map_label_ofPairs]
  rfl

end suggestions

section labelsIn

variable {σ : Type} {r : Request} (catalog : Catalog (StateM σ)) (s : σ)
  (hpath : r.path? = none)
include hpath

theorem labelsIn_eq (hneeds : r.isInNeeds = false) :
    r.labelsIn catalog s = ((r.inputsAtCaret catalog).run s).1.names.filter fun name =>
      Text.fuzzyMatches (r.text.wordBefore r.caret) name.toList :=
  congrArg (fun labels => (StateT.run labels s).1) (map_label_suggestions catalog hpath hneeds)

theorem labelsIn_needs (hneeds : r.isInNeeds = true) :
    r.labelsIn catalog s = r.otherJobs.names.filter fun name =>
      Text.fuzzyMatches (r.text.wordBefore r.caret) name.toList :=
  congrArg (fun labels => (StateT.run labels s).1)
    (map_label_suggestions_needs catalog hpath hneeds)

end labelsIn

theorem eq_nodeAt_of_currentNode? {ix : Index} {t : Tree} {n : Nat} (htree : ix.tree = some t)
    (hn : ix.currentNode? = some n) : t.nodeAt ix.caret = n := by
  rw [Index.currentNode?, Index.nodeAt?, htree, Option.map_some, Option.some.injEq] at hn
  exact hn

/-- At a key the caret is in `needs` if that is the key. -/
theorem isInNeeds_eq {r : Request} {T : Tree} (hT : r.upToCaret.tree = some T) {n : Nat}
    (hn : r.upToCaret.currentNode? = some n) {key : String} (hkey : T.name? n = some key) :
    r.isInNeeds = (key == "needs") := by
  rw [isInNeeds, Index.atCaret?, Index.inTree?, hT, Option.bind_some,
    eq_nodeAt_of_currentNode? hT hn, Option.getD_some, Tree.hasName, hkey]
  simp

/-! ## The inputs at the caret -/

section inputs

variable {m : Type → Type} [Monad m] [LawfulMonad m] {r : Request} (catalog : Catalog m)
  {T F : Tree} (hT : r.upToCaret.tree = some T) (hF : r.whole.tree = some F) {n anchor : Nat}
  (hn : r.upToCaret.currentNode? = some n) (hanchor : r.whole.counterpart? T n = some anchor)
include hT hF hn hanchor

/-- The inputs at the caret are those at the counterpart of the caret's node. -/
theorem inputsAtCaret_eq {block : Nat} {uses : String}
    (huses : Index.usesAround? F anchor = some (block, uses)) :
    r.inputsAtCaret catalog
      = (fun inputs => (Index.writtenNames F block anchor).foldl Dictionary.erase inputs)
          <$> catalog.inputs uses := by
  simp only [inputsAtCaret, hT, eq_nodeAt_of_currentNode? hT hn, hanchor,
    Index.actionInputsAt?_eq catalog hF huses, bind_map_left, bind_pure_comp]

theorem inputsAtCaret_eq_empty (hfound : Index.usesAround? F anchor = none)
    (hcurrent : Index.usesAround? T n = none) :
    r.inputsAtCaret catalog = pure Dictionary.empty := by
  simp only [inputsAtCaret, hT, eq_nodeAt_of_currentNode? hT hn, hanchor,
    Index.actionInputsAt?_eq_none catalog hF hfound,
    Index.actionInputsAt?_eq_none catalog hT hcurrent, pure_bind]
  rfl

end inputs

/-! ## The names that are left -/

theorem filter_ne_eq_self_iff {names : List String} {key : String} :
    names.filter (· ≠ key) = names ↔ key ∉ names := by
  simp only [List.filter_eq_self, decide_eq_true_iff]
  constructor
  · exact fun hall hmem => hall key hmem rfl
  · rintro hno name hmem rfl
    exact hno hmem

section offered

variable {F T : Tree} {block n : Nat} {key : String} (hF : F.IsPreorder) (typed : Text)
  (inputs : Dictionary)
include hF

/-- At the key that stands for the caret's key all other keys are taken away. -/
theorem names_written_of_keepsKey (hkey : T.name? n = some key) {c : Nat}
    (hparent : F.parent? c = some block) (hname : F.name? c = some key)
    (honly : ∀ m, F.parent? m = some block → F.name? m = T.name? n → m = c) :
    ((Index.writtenNames F block c).foldl Dictionary.erase inputs).names.filter
        (fun name => Text.fuzzyMatches typed name.toList)
      = offeredInputs F block key typed inputs := by
  rw [Dictionary.names_foldl_erase, List.filter_filter, offeredInputs]
  refine List.filter_congr fun name _ => ?_
  rw [Bool.eq_iff_iff, Bool.and_eq_true, decide_eq_true_iff, decide_eq_true_iff]
  refine and_congr_right fun _ => ?_
  rw [Index.mem_writtenNames_key_iff hF hparent]
  simp only [hF.mem_children_iff (hF.parent_lt_size hparent)]
  constructor
  · intro hno
    by_cases hsame : name = key
    · exact .inl hsame
    · refine .inr fun ⟨d, hd, hdname⟩ => hno ⟨d, hd, ?_, hdname⟩
      rintro rfl
      rw [hname, Option.some.injEq] at hdname
      exact hsame hdname.symm
  · rintro (rfl | hno) ⟨d, hd, hne, hdname⟩
    · exact hne (honly d hd (hdname.trans hkey.symm))
    · exact hno ⟨d, hd, hdname⟩

/-- Where all keys are taken away, the key at the caret is not offered. -/
theorem names_written_of_all {anchor : Nat} (hblock : block < F.size)
    (hkey : ∃ c, F.parent? c = some block ∧ F.name? c = some key)
    (hall : ∀ name, name ∈ Index.writtenNames F block anchor ↔
      ∃ c, F.parent? c = some block ∧ F.name? c = some name) :
    ((Index.writtenNames F block anchor).foldl Dictionary.erase inputs).names.filter
        (fun name => Text.fuzzyMatches typed name.toList)
      = (offeredInputs F block key typed inputs).filter (· ≠ key) := by
  rw [Dictionary.names_foldl_erase, List.filter_filter, offeredInputs, List.filter_filter]
  refine List.filter_congr fun name _ => ?_
  rw [Bool.eq_iff_iff, Bool.and_eq_true, Bool.and_eq_true, decide_eq_true_iff, decide_eq_true_iff,
    decide_eq_true_iff, hall]
  simp only [hF.mem_children_iff hblock]
  constructor
  · rintro ⟨htyped, hno⟩
    refine ⟨fun hsame => hno ?_, htyped, .inr hno⟩
    rw [hsame]
    exact hkey
  · rintro ⟨hne, htyped, hsame | hno⟩
    · exact absurd hsame hne
    · exact ⟨htyped, hno⟩

end offered

/-! ## What is offered for a key -/

/-- The whole document is decoded if it can be. -/
theorem tree_whole_of_ofText {text : Text} {kind : DocumentKind} {caret : Nat} {r : Request}
    (hr : ofText text kind caret = .ok r) {F : Tree} (hF : Tree.decode? text = .ok (some F)) :
    r.whole.tree = some F := by
  rw [ofText] at hr
  generalize min caret text.byteSize = offset at hr
  have hwhole : Index.ofText text kind offset = .ok (Index.ofTree (some F) kind offset) := by
    rw [Index.ofText, hF]
    rfl
  rw [hwhole] at hr
  cases hbefore : Index.ofTextUpToCaret text kind offset with
  | error fault =>
    rw [hbefore] at hr
    cases hr
  | ok upToCaret =>
    cases hpath : Expression.Path.atCaret? text offset with
    | error fault =>
      rw [hbefore, hpath] at hr
      cases hr
    | ok path? =>
      rw [hbefore, hpath] at hr
      cases hr
      rfl

/-- The trees of a request are located in texts, which may be completed ones. -/
theorem exists_isLocated_of_ofText {text : Text} {kind : DocumentKind} {caret : Nat} {r : Request}
    (hr : ofText text kind caret = .ok r) {T : Tree}
    (hT : r.upToCaret.tree = some T ∨ r.whole.tree = some T) : ∃ source, T.IsLocated source := by
  obtain ⟨source, -, hlocated⟩ := exists_isSource_isLocated hr T hT
  exact ⟨source, hlocated⟩

/-- The tree up to the caret is located in a text, which may be a completed one. -/
theorem exists_isLocated_upToCaret {text : Text} {kind : DocumentKind} {caret : Nat} {r : Request}
    (hr : ofText text kind caret = .ok r) {T : Tree} (hT : r.upToCaret.tree = some T) :
    r.text = text ∧ ∃ source, T.IsLocated source := by
  obtain ⟨_, _, _, _, hr', htext, -⟩ := exists_ofText_eq text kind caret
  cases hr.symm.trans hr'
  exact ⟨htext, exists_isLocated_of_ofText hr (.inl hT)⟩

/-- The request of a text that decodes, for a caret in it. -/
theorem ofText_eq {text front after : Text} {kind : DocumentKind} {caret : Nat} {T F : Tree}
    {path? : Option Expression.Path} (hcaret : min caret text.byteSize = caret)
    (hcut : text.cut (text.caretLineEnd caret) = .ok (front, after))
    (hT : Tree.decodePartial? front = .ok (some T)) (hF : Tree.decode? text = .ok (some F))
    (hpath : Expression.Path.atCaret? text caret = .ok path?) :
    ofText text kind caret = .ok ⟨text, caret, path?, Index.ofTree (some T) kind caret,
      Index.ofTree (some F) kind caret⟩ := by
  rw [ofText, hcaret, Index.ofTextUpToCaret, hcut, Index.ofText, hF, hpath]
  simp only [bind, Except.bind, hT]
  rfl

section labels

variable {r : Request} {T F : Tree} {s u : Text} (hTlocated : T.IsLocated s)
  (hFlocated : F.IsLocated u) (hT : r.upToCaret.tree = some T) (hF : r.whole.tree = some F)
  {n p b : Nat} (hn : r.upToCaret.currentNode? = some n) {key uses : String}
  (hkey : T.name? n = some key) (hp : T.parent? n = some p) (hblock : T.IsInputBlock p uses)
  (hb : F.IsOnlyAt (T.location p) b) (hbblock : F.IsInputBlock b uses)
  (hwritten : ∃ c, F.parent? c = some b ∧ F.name? c = some key)
  {m : Type → Type} [Monad m] [LawfulMonad m] (catalog : Catalog m)

include hTlocated hFlocated hp in
theorem name?_of_standsFor {c : Nat} (hc : c < F.size) (hstands : F.StandsFor c T n) :
    F.name? c = T.name? n :=
  hFlocated.name?_eq_of_location_eq hTlocated hc (Tree.lt_size_of_parent hp) hstands.location_eq

include hTlocated hFlocated hT hF hn hkey hp hb hbblock in
/-- The key is kept, so what is to be offered is offered. -/
theorem map_label_inputsAtCaret_of_keepsKey (hwith : key ≠ "with")
    (hkeeps : F.KeepsKey b T n) (typed : Text) :
    (fun inputs => inputs.names.filter fun name => Text.fuzzyMatches typed name.toList)
        <$> r.inputsAtCaret catalog
      = offeredInputs F b key typed <$> catalog.inputs uses := by
  obtain ⟨c, hparent, hstands, honly⟩ := hkeeps
  have hname : ∀ {d}, F.parent? d = some b → F.StandsFor d T n → F.name? d = some key :=
    fun hd hdstands => (name?_of_standsFor hTlocated hFlocated hp (Tree.lt_size_of_parent hd)
      hdstands).trans hkey
  rcases Index.counterpart?_cases hTlocated hFlocated hF hp hb with
    ⟨d, hdparent, hdstands, hd⟩ | ⟨hnone, -⟩
  · obtain rfl := honly d hdparent ((hname hdparent hdstands).trans hkey.symm)
    have hne : F.name? d ≠ some "with" := by
      rw [hname hdparent hdstands, ne_eq, Option.some.injEq]
      exact hwith
    rw [inputsAtCaret_eq catalog hT hF hn hd (Index.usesAround?_key hbblock hdparent hne),
      Functor.map_map]
    simp only [names_written_of_keepsKey hFlocated.isPreorder typed _ hkey hdparent
      (hname hdparent hdstands) honly]
  · exact absurd hstands (hnone c hparent)

include hTlocated hFlocated hT hF hn hkey hp hb hbblock hwritten in
/-- The key is not kept, so it is taken away with the others. -/
theorem map_label_inputsAtCaret_of_not_keepsKey
    (hwith : key = "with" → ∀ c, F.parent? c = some b → ¬ F.StandsFor c T n)
    (hkeeps : ¬ F.KeepsKey b T n) (typed : Text) :
    (fun inputs => inputs.names.filter fun name => Text.fuzzyMatches typed name.toList)
        <$> r.inputsAtCaret catalog
      = (fun inputs => (offeredInputs F b key typed inputs).filter (· ≠ key))
          <$> catalog.inputs uses := by
  have hpre := hFlocated.isPreorder
  rcases Index.counterpart?_cases hTlocated hFlocated hF hp hb with
    ⟨c, hparent, hstands, hc⟩ | ⟨-, hc⟩
  · have hname : F.name? c = some key := (name?_of_standsFor hTlocated hFlocated hp
      (Tree.lt_size_of_parent hparent) hstands).trans hkey
    have hne : F.name? c ≠ some "with" := by
      rw [hname, ne_eq, Option.some.injEq]
      exact fun hsame => hwith hsame c hparent hstands
    -- Another key of the block has the same name, and through it the name is taken away.
    obtain ⟨other, hother, hothername, hdiff⟩ :
        ∃ other, F.parent? other = some b ∧ F.name? other = some key ∧ other ≠ c := by
      by_contra hnone
      push Not at hnone
      exact hkeeps ⟨c, hparent, hstands, fun d hd hdname => hnone d hd (hdname.trans hkey)⟩
    have hall : ∀ name, name ∈ Index.writtenNames F b c ↔
        ∃ d, F.parent? d = some b ∧ F.name? d = some name := by
      intro name
      rw [Index.mem_writtenNames_key_iff hpre hparent]
      constructor
      · rintro ⟨d, hd, -, hdname⟩
        exact ⟨d, hd, hdname⟩
      · rintro ⟨d, hd, hdname⟩
        by_cases hsame : d = c
        · rw [hsame, hname, Option.some.injEq] at hdname
          rw [← hdname]
          exact ⟨other, hother, hdiff, hothername⟩
        · exact ⟨d, hd, hsame, hdname⟩
    rw [inputsAtCaret_eq catalog hT hF hn hc (Index.usesAround?_key hbblock hparent hne),
      Functor.map_map]
    simp only [names_written_of_all hpre typed _ hb.lt_size hwritten hall]
  · rw [inputsAtCaret_eq catalog hT hF hn hc (Index.usesAround?_block hbblock), Functor.map_map]
    simp only [names_written_of_all hpre typed _ hb.lt_size hwritten fun name =>
      Index.mem_writtenNames_block_iff hpre hb.lt_size]

include hTlocated hFlocated hT hF hn hkey hp hblock hb hbblock in
/-- A key called `with` that is found is taken for a block, for which nothing is offered. -/
theorem inputsAtCaret_of_with (hwith : key = "with")
    (hfound : ∃ c, F.parent? c = some b ∧ F.StandsFor c T n) :
    r.inputsAtCaret catalog = pure Dictionary.empty := by
  rcases Index.counterpart?_cases hTlocated hFlocated hF hp hb with
    ⟨c, hparent, hstands, hc⟩ | ⟨hnone, -⟩
  · have hname : F.name? c = some "with" := (name?_of_standsFor hTlocated hFlocated hp
      (Tree.lt_size_of_parent hparent) hstands).trans (by rw [hkey, hwith])
    exact inputsAtCaret_eq_empty catalog hT hF hn hc
      (Index.usesAround?_with hbblock.name_eq hparent hname)
      (Index.usesAround?_with hblock.name_eq hp (by rw [hkey, hwith]))
  · obtain ⟨c, hparent, hstands⟩ := hfound
    exact absurd hstands (hnone c hparent)

end labels

/-- **What is offered for a key of a block.**  It is what is to be offered exactly if the key is
kept, which means that it is written once in the block of the whole document and that its text
matches there, or if the key is no input that could be offered.  Otherwise the key is missing.  A
key that is called `with` like the block gets nothing once it is found, and one that is called
`needs` gets the other jobs. -/
theorem labels_at_key_spec {text : Text} {kind : DocumentKind} {caret : Nat} {r : Request}
    (hr : ofText text kind caret = .ok r) (hpath : r.path? = none) {T F : Tree}
    (hT : r.upToCaret.tree = some T) (hF : Tree.decode? text = .ok (some F)) {n p b : Nat}
    (hn : r.upToCaret.currentNode? = some n) {key uses : String} (hkey : T.name? n = some key)
    (hp : T.parent? n = some p) (hblock : T.IsInputBlock p uses)
    (hb : F.IsOnlyAt (T.location p) b) (hbblock : F.IsInputBlock b uses)
    (hwritten : ∃ c, F.parent? c = some b ∧ F.name? c = some key)
    {σ : Type} (catalog : Catalog (StateM σ)) (s : σ) :
    let typed := text.wordBefore r.caret
    let offered := offeredInputs F b key typed ((catalog.inputs uses).run s).1
    (key ≠ "needs" → key ≠ "with" →
      (r.labelsIn catalog s = offered ↔ F.KeepsKey b T n ∨ key ∉ offered) ∧
      (¬ F.KeepsKey b T n → r.labelsIn catalog s = offered.filter (· ≠ key))) ∧
    (key = "with" →
      ((∃ c, F.parent? c = some b ∧ F.StandsFor c T n) → r.labelsIn catalog s = []) ∧
      ((∀ c, F.parent? c = some b → ¬ F.StandsFor c T n) →
        r.labelsIn catalog s = offered.filter (· ≠ key))) ∧
    (key = "needs" → r.labelsIn catalog s
      = r.otherJobs.names.filter fun name => Text.fuzzyMatches typed name.toList) := by
  intro typed offered
  obtain ⟨rfl, source, hTlocated⟩ := exists_isLocated_upToCaret hr hT
  have hFlocated := Tree.isLocated_of_decode? hF
  have hwhole := tree_whole_of_ofText hr hF
  have hneeds := isInNeeds_eq hT hn hkey
  have hlabels : key ≠ "needs" → r.labelsIn catalog s
      = ((r.inputsAtCaret catalog).run s).1.names.filter fun name =>
          Text.fuzzyMatches typed name.toList := by
    intro hne
    rw [beq_eq_false_iff_ne.mpr hne] at hneeds
    exact labelsIn_eq catalog s hpath hneeds
  have hgone : (key = "with" → ∀ c, F.parent? c = some b → ¬ F.StandsFor c T n) →
      key ≠ "needs" → ¬ F.KeepsKey b T n → r.labelsIn catalog s = offered.filter (· ≠ key) := by
    intro hwith hne hkeeps
    rw [hlabels hne]
    exact congrArg (fun labels => (StateT.run labels s).1)
      (map_label_inputsAtCaret_of_not_keepsKey hTlocated hFlocated hT hwhole hn hkey hp hb hbblock
        hwritten catalog hwith hkeeps typed)
  refine ⟨fun hne hwith => ⟨?_, hgone (fun hsame => absurd hsame hwith) hne⟩,
    fun hsame => ⟨fun hfound => ?_, fun hnone => hgone (fun _ => hnone) ?_ ?_⟩, fun hsame => ?_⟩
  · by_cases hkeeps : F.KeepsKey b T n
    · refine iff_of_true ?_ (.inl hkeeps)
      rw [hlabels hne]
      exact congrArg (fun labels => (StateT.run labels s).1)
        (map_label_inputsAtCaret_of_keepsKey hTlocated hFlocated hT hwhole hn hkey hp hb hbblock
          catalog hwith hkeeps typed)
    · rw [hgone (fun hsame => absurd hsame hwith) hne hkeeps, filter_ne_eq_self_iff,
        or_iff_right hkeeps]
  · rw [hlabels (by rw [hsame]; decide), inputsAtCaret_of_with hTlocated hFlocated hT hwhole hn
      hkey hp hblock hb hbblock catalog hsame hfound]
    rfl
  · rw [hsame]
    decide
  · rintro ⟨c, hparent, hstands, -⟩
    exact hnone c hparent hstands
  · rw [beq_iff_eq.mpr hsame] at hneeds
    exact labelsIn_needs catalog s hpath hneeds

/-- A catalog that declares the same inputs for all actions. -/
def declaring (names : List String) : Catalog (StateM Unit) :=
  ⟨fun _ => pure (Dictionary.ofListFirst (names.map fun name => (name, ""))),
    fun _ => pure Dictionary.empty⟩

/-- A workflow with two inputs of an action. -/
def twoInputsText : Text :=
  "jobs: \x7bj: \x7bsteps: [\x7buses: a, with: \x7bx: p, y: q\x7d\x7d]\x7d\x7d".toList

/-- The tree of `twoInputsText`. -/
def twoInputsTree : Tree :=
  ⟨#[⟨none, none, .mapping, none, [1], 0, 9, Span.upTo 0 51⟩,
    ⟨some "jobs", none, .mapping, some 0, [2], 0, 9, Span.upTo 0 51⟩,
    ⟨some "j", none, .mapping, some 1, [3], 0, 9, Span.upTo 7 51⟩,
    ⟨some "steps", none, .sequence, some 2, [4], 0, 9, Span.upTo 11 51⟩,
    ⟨none, none, .mapping, some 3, [5, 6], 0, 9, Span.upTo 19 51⟩,
    ⟨some "uses", some "a", .scalar, some 4, [], 0, 6, Span.upTo 20 29⟩,
    ⟨some "with", none, .mapping, some 4, [7, 8], 1, 9, Span.upTo 29 51⟩,
    ⟨some "x", some "p", .scalar, some 6, [], 0, 8, Span.upTo 36 42⟩,
    ⟨some "y", some "q", .scalar, some 6, [], 1, 9, Span.upTo 42 51⟩]⟩

/-- The request for the beginning of the first input. -/
def twoInputsRequest : Request :=
  ⟨twoInputsText, 36, none, ⟨some twoInputsTree, .workflow, 36⟩,
    ⟨some twoInputsTree, .workflow, 36⟩⟩

/-- The first input is offered, and not the second one, which is written. -/
theorem labelsIn_twoInputsRequest :
    ofText twoInputsText .workflow 36 = .ok twoInputsRequest ∧
      Tree.decode? twoInputsText = .ok (some twoInputsTree) ∧
      twoInputsRequest.upToCaret.currentNode? = some 7 ∧
      twoInputsTree.IsOnlyAt (twoInputsTree.location 6) 6 ∧ twoInputsTree.IsInputBlock 6 "a" ∧
      twoInputsTree.KeepsKey 6 twoInputsTree 7 ∧
      twoInputsRequest.labelsIn (declaring ["x", "y", "z"]) ()
        = offeredInputs twoInputsTree 6 "x" (twoInputsText.wordBefore 36)
            (((declaring ["x", "y", "z"]).inputs "a").run ()).1 ∧
      twoInputsRequest.labelsIn (declaring ["x", "y", "z"]) () = ["x", "z"] := by
  have hdecode : Tree.decode? twoInputsText = .ok (some twoInputsTree) := by decide +kernel
  have hcut : twoInputsText.cut (twoInputsText.caretLineEnd 36) = .ok (twoInputsText, []) := by
    decide +kernel
  have hpartial : Tree.decodePartial? twoInputsText = .ok (some twoInputsTree) := by
    rw [Tree.decodePartial?, Tree.decodeFirst?, hdecode]
    rfl
  have hr : ofText twoInputsText .workflow 36 = .ok twoInputsRequest :=
    ofText_eq (by decide) hcut hpartial hdecode (by decide +kernel)
  have hn : twoInputsRequest.upToCaret.currentNode? = some 7 := by decide
  have honly : twoInputsTree.IsOnlyAt (twoInputsTree.location 6) 6 :=
    ⟨by decide, rfl, by decide⟩
  have hblock : twoInputsTree.IsInputBlock 6 "a" := ⟨by decide, 4, by decide, by decide, by decide⟩
  have hkeeps : twoInputsTree.KeepsKey 6 twoInputsTree 7 := by
    have honlyKey : ∀ m < twoInputsTree.size, twoInputsTree.name? m = twoInputsTree.name? 7 →
        m = 7 := by decide
    exact ⟨7, rfl, ⟨rfl, fun text htext => ⟨text, htext, .inl rfl⟩⟩,
      fun m hm => honlyKey m (Tree.lt_size_of_parent hm)⟩
  have hkey : twoInputsTree.name? 7 = some "x" := rfl
  have hspec := labels_at_key_spec hr rfl rfl hdecode hn hkey rfl hblock honly hblock
    ⟨7, rfl, rfl⟩ (declaring ["x", "y", "z"]) ()
  have hlabels := (hspec.1 (by decide) (by decide)).1.mpr (.inl hkeeps)
  refine ⟨hr, hdecode, hn, honly, hblock, hkeeps, hlabels, ?_⟩
  rw [hlabels]
  decide

/-- A workflow with an input of more than one line. -/
def blockText : Text :=
  ("jobs:\n  b:\n    steps:\n      - uses: a/b@v1\n        with:\n"
    ++ "          k: |\n            x\n").toList

/-- The tree of `blockText` up to the line of the input. -/
def blockTreeUpToKey : Tree :=
  ⟨#[⟨none, none, .mapping, none, [1], 0, 8, Span.upTo 0 71⟩,
    ⟨some "jobs", none, .mapping, some 0, [2], 0, 8, Span.upTo 0 71⟩,
    ⟨some "b", none, .mapping, some 1, [3], 0, 8, Span.upTo 8 71⟩,
    ⟨some "steps", none, .sequence, some 2, [4], 0, 8, Span.upTo 15 71⟩,
    ⟨none, none, .mapping, some 3, [5, 6], 0, 8, Span.upTo 28 71⟩,
    ⟨some "uses", some "a/b@v1", .scalar, some 4, [], 0, 6, Span.upTo 30 51⟩,
    ⟨some "with", none, .mapping, some 4, [7], 1, 8, Span.upTo 51 71⟩,
    ⟨some "k", some "", .scalar, some 6, [], 0, 8, Span.upTo 67 71⟩]⟩

/-- The tree of `blockText`. -/
def blockTree : Tree :=
  ⟨#[⟨none, none, .mapping, none, [1], 0, 8, Span.upTo 0 86⟩,
    ⟨some "jobs", none, .mapping, some 0, [2], 0, 8, Span.upTo 0 86⟩,
    ⟨some "b", none, .mapping, some 1, [3], 0, 8, Span.upTo 8 86⟩,
    ⟨some "steps", none, .sequence, some 2, [4], 0, 8, Span.upTo 15 86⟩,
    ⟨none, none, .mapping, some 3, [5, 6], 0, 8, Span.upTo 28 86⟩,
    ⟨some "uses", some "a/b@v1", .scalar, some 4, [], 0, 6, Span.upTo 30 51⟩,
    ⟨some "with", none, .mapping, some 4, [7], 1, 8, Span.upTo 51 86⟩,
    ⟨some "k", some "x\n", .scalar, some 6, [], 0, 8, Span.upTo 67 86⟩]⟩

/-- The request at the input. -/
def blockRequest : Request :=
  ⟨blockText, 70, none, ⟨some blockTreeUpToKey, .workflow, 70⟩, ⟨some blockTree, .workflow, 70⟩⟩

/-- **A key that is being typed is not offered if its text begins on the next line.** -/
theorem labels_blockText :
    ofText blockText .workflow 70 = .ok blockRequest ∧ blockRequest.path? = none ∧
      blockRequest.upToCaret.currentNode? = some 7 ∧ blockTreeUpToKey.name? 7 = some "k" ∧
      blockTreeUpToKey.IsInputBlock 6 "a/b@v1" ∧ blockTree.IsInputBlock 6 "a/b@v1" ∧
      blockTree.location 7 = blockTreeUpToKey.location 7 ∧
      offeredInputs blockTree 6 "k" (blockText.wordBefore 70)
        (((declaring ["k", "l"]).inputs "a/b@v1").run ()).1 = ["k", "l"] ∧
      blockRequest.labelsIn (declaring ["k", "l"]) () = ["l"] := by
  have hcut : blockText.cut (blockText.caretLineEnd 70)
      = .ok (blockText.take 71, blockText.drop 71) := by decide +kernel
  have hr : ofText blockText .workflow 70 = .ok blockRequest :=
    ofText_eq (by decide) hcut (by decide +kernel) (by decide +kernel) (by decide +kernel)
  exact ⟨hr, rfl, by decide, rfl, ⟨by decide, 4, by decide, by decide, by decide⟩,
    ⟨by decide, 4, by decide, by decide, by decide⟩, by decide, by decide, by decide +kernel⟩

end WorkflowLens.Request
