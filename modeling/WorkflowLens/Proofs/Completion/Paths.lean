import WorkflowLens.Proofs.Completion.Outputs

/-!
# Where a path ends

Following a path asks for the candidates of one depth after the other, and the answers may depend
on a catalog whose state changes when it is asked.  But the catalog is asked at one depth only,
that of the outputs of a step, and before that depth nothing has changed.  So for a given state the
candidates of all depths are fixed, `Request.candidatesIn`, and following a path only compares
words with them.

The words of a path and the depths are off by one: the word at place `i` is looked for among the
candidates of depth `i - 1`, and what is offered for `n` words are candidates of depth `n - 1`.

* `Request.followFixed_eq_resolved`, `Request.followFixed_eq_abandoned`: where words end by the
  candidates alone.
* `Request.resolveIn_eq`: the same for a catalog with a state.
* `Request.OffersByDepth`, `Request.offersByDepth`: the labels of each depth.
* `Request.resolve_spec`: where every path ends, and what is offered for two, three, and more
  segments.
* `Request.items_stepOutputsRequest`: the outputs of a step.
-/

namespace WorkflowLens

open Expression (Path)

namespace Request

/-! ## Following words -/

/-- Where words end that come after a depth, if the candidates are known. -/
def followFixed (candidatesAt : Nat → List Item) (depth : Nat) (words : List String) : Outcome :=
  follow (m := Id) candidatesAt depth (candidatesAt depth) words

theorem any_label_iff {items : List Item} {word : String} :
    (items.any fun i => i.label == word) = true ↔ word ∈ items.map Item.label := by
  simp

section followFixed

variable (candidatesAt : Nat → List Item)

theorem followFixed_cons (depth : Nat) (word : String) (words : List String) :
    followFixed candidatesAt depth (word :: words)
      = if word ∈ (candidatesAt depth).map Item.label then
          followFixed candidatesAt (depth + 1) words
        else .abandoned := by
  rw [followFixed, follow]
  by_cases h : word ∈ (candidatesAt depth).map Item.label
  · rw [if_pos (any_label_iff.mpr h), if_pos h]
    rfl
  · rw [if_neg (mt any_label_iff.mp h), if_neg h]
    rfl

variable {candidatesAt}

/-- Words that are all candidates end at the depth of the last one. -/
theorem followFixed_eq_resolved (words : List String) : ∀ (depth : Nat),
    (∀ i w, words[i]? = some w → w ∈ (candidatesAt (depth + i)).map Item.label) →
    followFixed candidatesAt depth words
      = .resolved (depth + words.length) (candidatesAt (depth + words.length)) := by
  induction words with
  | nil => exact fun _ _ => rfl
  | cons word words ih =>
    intro depth h
    have hfirst : word ∈ (candidatesAt depth).map Item.label := h 0 word rfl
    have hrest := ih (depth + 1) fun i w hw => by
      rw [Nat.add_assoc, Nat.add_comm 1 i]
      exact h (i + 1) w hw
    rw [followFixed_cons, if_pos hfirst, hrest, List.length_cons, Nat.add_assoc, Nat.add_comm 1]

/-- A word that is no candidate of its depth ends the search. -/
theorem followFixed_eq_abandoned (words : List String) : ∀ (depth i : Nat) (w : String),
    words[i]? = some w → w ∉ (candidatesAt (depth + i)).map Item.label →
    followFixed candidatesAt depth words = .abandoned := by
  induction words with
  | nil => exact fun _ _ _ hw => by simp at hw
  | cons word words ih =>
    intro depth i w hw hno
    rw [followFixed_cons]
    split
    · next hfirst =>
      cases i with
      | zero =>
        cases hw
        exact absurd hfirst hno
      | succ i =>
        refine ih (depth + 1) i w hw ?_
        rw [Nat.add_assoc, Nat.add_comm 1 i]
        exact hno
    · rfl

end followFixed

/-! ## A catalog with a state -/

variable {σ : Type}

/-- The candidates at a depth, for a catalog in a given state. -/
def candidatesIn (r : Request) (catalog : Catalog (StateM σ)) (s : σ) (segments : List String)
    (depth : Nat) : List Item :=
  ((r.candidates catalog segments depth).run s).1

/-- The catalog is asked at depth 2 only: the candidates of the other depths do not depend on its
state, and do not change it. -/
theorem run_candidates (r : Request) (catalog : Catalog (StateM σ)) (s : σ)
    (segments : List String) {depth : Nat} (hdepth : depth ≠ 2) (s' : σ) :
    (r.candidates catalog segments depth).run s' = (r.candidatesIn catalog s segments depth, s') :=
  match depth with
  | 0 => rfl
  | 1 => rfl
  | 2 => absurd rfl hdepth
  | _ + 3 => rfl

/-- Following words asks for the candidates of depth 2 in the state it begins with, if it begins
before. -/
theorem run_follow {candidatesAt : Nat → StateM σ (List Item)} {fixed : Nat → List Item} {s : σ}
    (hsame : ∀ depth, depth ≠ 2 → ∀ s', (candidatesAt depth).run s' = (fixed depth, s'))
    (hasked : ((candidatesAt 2).run s).1 = fixed 2) (words : List String) :
    ∀ (depth : Nat) (s' : σ), (depth < 2 → s' = s) →
      ((follow candidatesAt depth (fixed depth) words).run s').1
        = followFixed fixed depth words := by
  induction words with
  | nil => exact fun _ _ _ => rfl
  | cons word words ih =>
    intro depth s' hs
    have hnext : ((candidatesAt (depth + 1)).run s').1 = fixed (depth + 1) ∧
        (depth + 1 < 2 → ((candidatesAt (depth + 1)).run s').2 = s) := by
      by_cases hdepth : depth + 1 = 2
      · rw [hs (by omega), hdepth]
        exact ⟨hasked, fun hlt => absurd hlt (Nat.lt_irrefl 2)⟩
      · rw [hsame _ hdepth]
        exact ⟨rfl, fun hlt => hs (by omega)⟩
    have hrest := ih (depth + 1) _ hnext.2
    by_cases h : word ∈ (fixed depth).map Item.label
    · rw [follow, if_pos (any_label_iff.mpr h), followFixed_cons, if_pos h, ← hrest, ← hnext.1]
      rfl
    · rw [follow, if_neg (mt any_label_iff.mp h), followFixed_cons, if_neg h]
      rfl

/-- Where a path ends, for a catalog in a given state. -/
def resolveIn (r : Request) (catalog : Catalog (StateM σ)) (s : σ) (path : Path) : Outcome :=
  ((r.resolve catalog path).run s).1

/-- A path ends where the candidates for the state at its beginning say. -/
theorem resolveIn_eq (r : Request) (catalog : Catalog (StateM σ)) (s : σ) (path : Path) :
    r.resolveIn catalog s path
      = (followFixed (r.candidatesIn catalog s path.segments) 0 (path.segments.drop 1)).matching
          path.stem.toList := by
  rw [← run_follow (fun _ hdepth => r.run_candidates catalog s path.segments hdepth) rfl
    (path.segments.drop 1) 0 s fun _ => rfl]
  rfl

/-! ## The candidates of each depth -/

/-- The names of the jobs that the caret's job needs, as they are written. -/
def needNames (r : Request) : List String :=
  match r.scope.job with
  | some job => r.whole.needs job
  | none => []

theorem map_fst_neededJobs (r : Request) : r.neededJobs.map Prod.fst = r.needNames := by
  rw [neededJobs, needNames]
  cases r.scope.job with
  | none => rfl
  | some job => simp [Function.comp_def]

/-- The words that a path may begin with: in the outputs of a trigger only `jobs`, and none where a
runner is named. -/
def firstWords (r : Request) : List String :=
  if r.upToCaret.isInTriggerOutputs then ["jobs"]
  else if r.upToCaret.currentName? ∈ [some "runs-on", some "os"] then []
  else contextNames.map Prod.fst

/-- The names that may follow a first word. -/
def namesAfter (r : Request) : (first? : Option String) → List String
  | some "steps" => (r.whole.steps r.scope.job).names
  | some "jobs" => r.whole.jobs.names
  | some "env" => (r.whole.envs r.scope).names
  | some "github" => githubFields.map Prod.fst
  | some "inputs" => r.whole.inputs.names
  | some "secrets" => r.whole.secrets.names
  | some "needs" => r.needNames
  | _ => r.firstWords

/-- What the depths of a path offer: names, then the word `outputs` if the names have outputs, then
these, and then nothing. -/
structure OffersByDepth (r : Request) (catalog : Catalog (StateM σ)) (s : σ)
    (segments : List String) (labelsAt : Nat → List String) : Prop where
  names : labelsAt 0 = r.namesAfter segments.head?
  word : labelsAt 1
    = if segments.head? ∈ [some "jobs", some "needs", some "steps"] then ["outputs"] else []
  outputs : ∀ name, name ∈ labelsAt 2 ↔
    ∃ first owner rest, segments = first :: owner :: rest ∧ r.GivesOutput catalog s first owner name
  nothing : ∀ depth, 3 ≤ depth → labelsAt depth = []

theorem map_label_contextItems (r : Request) : r.contextItems.map Item.label = r.firstWords := by
  rw [contextItems, firstWords]
  split
  · rfl
  · simp only [List.mem_cons, List.not_mem_nil, or_false]
    split
    · rfl
    · exact Item.map_label_ofPairs _ _

theorem map_label_contextMembers (r : Request) (segments : List String) :
    (r.contextMembers (Context.ofSegments segments)).map Item.label
      = r.namesAfter segments.head? := by
  cases segments with
  | nil => exact r.map_label_contextItems
  | cons first rest =>
    rw [Context.ofSegments, Context.ofSegment, List.head?_cons]
    split_ifs with hsteps hjobs henv hgithub hinputs hsecrets hneeds
    · rw [hsteps]
      exact Item.map_label_ofPairs _ _
    · rw [hjobs]
      exact Item.map_label_ofPairs _ _
    · rw [henv]
      exact Item.map_label_ofPairs _ _
    · rw [hgithub]
      exact Item.map_label_ofPairs _ _
    · rw [hinputs]
      exact Item.map_label_ofPairs _ _
    · rw [hsecrets]
      exact Item.map_label_ofPairs _ _
    · rw [hneeds, contextMembers, Item.map_label_ofPairs, map_fst_neededJobs]
      rfl
    · rw [contextMembers, map_label_contextItems]
      simp [namesAfter, hsteps, hjobs, henv, hgithub, hinputs, hsecrets, hneeds]

section resolveIn

variable (r : Request) (catalog : Catalog (StateM σ)) (s : σ) (path : Path)

theorem resolveIn_cases :
    (r.resolveIn catalog s path = .abandoned ∧
      ∃ i w, 1 ≤ i ∧ path.segments[i]? = some w ∧
        w ∉ (r.candidatesIn catalog s path.segments (i - 1)).map Item.label) ∨
    (r.resolveIn catalog s path = .resolved (path.segments.length - 1)
        (Item.matching path.stem.toList
          (r.candidatesIn catalog s path.segments (path.segments.length - 1))) ∧
      ∀ i w, 1 ≤ i → path.segments[i]? = some w →
        w ∈ (r.candidatesIn catalog s path.segments (i - 1)).map Item.label) := by
  rw [resolveIn_eq]
  generalize r.candidatesIn catalog s path.segments = candidatesAt
  by_cases h : ∀ i w, 1 ≤ i → path.segments[i]? = some w →
      w ∈ (candidatesAt (i - 1)).map Item.label
  · right
    refine ⟨?_, h⟩
    rw [followFixed_eq_resolved _ 0 fun i w hw => ?_, Nat.zero_add, List.length_drop]
    · rfl
    · rw [List.getElem?_drop, Nat.add_comm] at hw
      rw [Nat.zero_add]
      exact h (i + 1) w (Nat.le_add_left 1 i) hw
  · left
    push Not at h
    obtain ⟨i, w, hi, hw, hno⟩ := h
    refine ⟨?_, i, w, hi, hw, hno⟩
    have hdrop : (path.segments.drop 1)[i - 1]? = some w := by
      rw [List.getElem?_drop, Nat.add_sub_cancel' hi]
      exact hw
    rw [followFixed_eq_abandoned _ 0 (i - 1) w hdrop (by rw [Nat.zero_add]; exact hno)]
    rfl

/-- A path is abandoned exactly if one of its words is no candidate of the depth before. -/
theorem resolveIn_eq_abandoned_iff : r.resolveIn catalog s path = .abandoned ↔
    ∃ i w, 1 ≤ i ∧ path.segments[i]? = some w ∧
      w ∉ (r.candidatesIn catalog s path.segments (i - 1)).map Item.label := by
  rcases r.resolveIn_cases catalog s path with ⟨hend, hword⟩ | ⟨hend, hwords⟩
  · exact ⟨fun _ => hword, fun _ => hend⟩
  · constructor
    · intro habandoned
      rw [hend] at habandoned
      cases habandoned
    · rintro ⟨i, w, hi, hw, hno⟩
      exact absurd (hwords i w hi hw) hno

/-- Otherwise those candidates of the last depth stay whose labels go with what is typed. -/
theorem resolveIn_of_ne_abandoned (h : r.resolveIn catalog s path ≠ .abandoned) :
    r.resolveIn catalog s path = .resolved (path.segments.length - 1)
      ((r.candidatesIn catalog s path.segments (path.segments.length - 1)).filter fun item =>
        Text.fuzzyMatches path.stem.toList item.label.toList) := by
  rcases r.resolveIn_cases catalog s path with ⟨habandoned, -⟩ | ⟨hresolved, -⟩
  · exact absurd habandoned h
  · exact hresolved

theorem candidatesIn_one (segments : List String) :
    r.candidatesIn catalog s segments 1
      = if (Context.ofSegments segments).hasOutputs then [Item.ofLabel "outputs" .output]
        else [] := rfl

theorem mem_map_label_candidatesIn_two {segments : List String} {name : String} :
    name ∈ (r.candidatesIn catalog s segments 2).map Item.label ↔
      ∃ first owner rest, segments = first :: owner :: rest ∧
        r.GivesOutput catalog s first owner name := by
  match segments with
  | [] =>
    refine iff_of_false List.not_mem_nil ?_
    rintro ⟨_, _, _, hsegments, -⟩
    cases hsegments
  | [first] =>
    refine iff_of_false List.not_mem_nil ?_
    rintro ⟨_, _, _, hsegments, -⟩
    cases hsegments
  | first :: owner :: rest =>
    have hcandidates : r.candidatesIn catalog s (first :: owner :: rest) 2
        = ((r.outputMembers catalog (Context.ofSegment first) owner).run s).1 := rfl
    rw [hcandidates, mem_outputMembers_iff]
    constructor
    · exact fun hname => ⟨first, owner, rest, rfl, hname⟩
    · rintro ⟨_, _, _, ⟨⟩, hname⟩
      exact hname

theorem candidatesIn_of_three_le {depth : Nat} (segments : List String) (hdepth : 3 ≤ depth) :
    r.candidatesIn catalog s segments depth = [] := by
  obtain ⟨count, rfl⟩ : ∃ count, depth = count + 3 := ⟨depth - 3, by omega⟩
  rfl

/-- The items that are offered for a path, word by word. -/
theorem items_resolveIn :
    (r.resolveIn catalog s path).items = Item.matching path.stem.toList
      (followFixed (r.candidatesIn catalog s path.segments) 0 (path.segments.drop 1)).items := by
  rw [resolveIn_eq]
  cases followFixed (r.candidatesIn catalog s path.segments) 0 (path.segments.drop 1) <;> rfl

/-- The candidates of a path offer what its depths offer. -/
theorem offersByDepth (segments : List String) : r.OffersByDepth catalog s segments fun depth =>
    (r.candidatesIn catalog s segments depth).map Item.label where
  names := r.map_label_contextMembers segments
  word := by
    rw [candidatesIn_one]
    cases segments with
    | nil => rfl
    | cons first rest =>
      rw [Context.ofSegments]
      simp only [Context.hasOutputs_ofSegment_iff, List.head?_cons, List.mem_cons,
        List.not_mem_nil, or_false, Option.some.injEq]
      split <;> rfl
  outputs _ := r.mem_map_label_candidatesIn_two catalog s
  nothing _ hdepth := by
    rw [candidatesIn_of_three_le r catalog s segments hdepth]
    rfl

/-- A label is offered for a path if all words of the path are candidates of the depths before them
and the label is one of the last depth that goes with what has been typed. -/
theorem mem_map_label_items_iff {label : String} :
    label ∈ (r.resolveIn catalog s path).items.map Item.label ↔
      (∀ i w, 1 ≤ i → path.segments[i]? = some w →
        w ∈ (r.candidatesIn catalog s path.segments (i - 1)).map Item.label) ∧
      label ∈ (r.candidatesIn catalog s path.segments (path.segments.length - 1)).map Item.label ∧
      Text.fuzzyMatches path.stem.toList label.toList = true := by
  rcases r.resolveIn_cases catalog s path with ⟨hend, i, w, hi, hw, hno⟩ | ⟨hend, hwords⟩
  · rw [hend]
    refine iff_of_false List.not_mem_nil ?_
    rintro ⟨hwords, -⟩
    exact hno (hwords i w hi hw)
  · rw [hend, and_iff_right hwords]
    simp only [Outcome.items, Item.matching, List.mem_map, List.mem_filter]
    constructor
    · rintro ⟨item, ⟨hitem, hmatches⟩, rfl⟩
      exact ⟨⟨item, hitem, rfl⟩, hmatches⟩
    · rintro ⟨⟨item, hitem, rfl⟩, hmatches⟩
      exact ⟨item, ⟨hitem, hmatches⟩, rfl⟩

/-- After two words only the word `outputs` is offered, and only if the second word names something
that has some. -/
theorem items_resolveIn_two {first owner : String} (h : path.segments = [first, owner]) :
    (r.resolveIn catalog s path).items
      = if first ∈ ["jobs", "needs", "steps"] ∧ owner ∈ r.namesAfter (some first) ∧
          Text.fuzzyMatches path.stem.toList "outputs".toList = true then
          [Item.ofLabel "outputs" .output]
        else [] := by
  have hnames : (r.candidatesIn catalog s [first, owner] 0).map Item.label
      = r.namesAfter (some first) := (r.offersByDepth catalog s [first, owner]).names
  rcases r.resolveIn_cases catalog s path with ⟨hend, i, w, hi, hw, hno⟩ | ⟨hend, hwords⟩
  · obtain rfl : i = 1 := by
      have hlt : i < path.segments.length := (List.getElem?_eq_some_iff.mp hw).1
      rw [h] at hlt
      exact Nat.le_antisymm (Nat.le_of_lt_succ hlt) hi
    rw [h] at hw hno
    obtain rfl : owner = w := Option.some.inj hw
    rw [hend, if_neg fun hall => hno (hnames.symm ▸ hall.2.1)]
    rfl
  · have howner := hwords 1 owner (Nat.le_refl 1) (by rw [h]; rfl)
    rw [h, hnames] at howner
    have hlast : path.segments.length - 1 = 1 := by rw [h]; rfl
    rw [hend, hlast, h, candidatesIn_one, Context.ofSegments, Outcome.items]
    simp only [Context.hasOutputs_ofSegment_iff, howner, true_and, List.mem_cons, List.not_mem_nil,
      or_false]
    by_cases hfirst : first = "jobs" ∨ first = "needs" ∨ first = "steps"
    · rw [if_pos hfirst, Item.matching, List.filter_singleton, Bool.cond_eq_ite]
      simp only [hfirst, true_and]
      rfl
    · rw [if_neg hfirst, if_neg fun hall => hfirst hall.1]
      rfl

/-- After the word `outputs` the outputs are offered of what the second word names. -/
theorem mem_map_label_items_three {first owner field label : String}
    (h : path.segments = [first, owner, field]) :
    label ∈ (r.resolveIn catalog s path).items.map Item.label ↔
      field = "outputs" ∧ owner ∈ r.namesAfter (some first) ∧
        r.GivesOutput catalog s first owner label ∧
        Text.fuzzyMatches path.stem.toList label.toList = true := by
  have hdepths := r.offersByDepth catalog s [first, owner, field]
  have hnames : (r.candidatesIn catalog s [first, owner, field] 0).map Item.label
      = r.namesAfter (some first) := hdepths.names
  have hword : field ∈ (r.candidatesIn catalog s [first, owner, field] 1).map Item.label ↔
      first ∈ ["jobs", "needs", "steps"] ∧ field = "outputs" := by
    rw [hdepths.word]
    split
    · next hfirst => simpa using fun _ => hfirst
    · next hfirst => simpa using fun hjobs _ => hfirst (by simpa using hjobs)
  rw [mem_map_label_items_iff, h]
  constructor
  · rintro ⟨hwords, hlabel, hmatches⟩
    have howner := hwords 1 owner (Nat.le_refl 1) rfl
    have hfield := hword.mp (hwords 2 field (by decide) rfl)
    obtain ⟨_, _, _, ⟨⟩, hgives⟩ := (hdepths.outputs label).mp hlabel
    exact ⟨hfield.2, hnames ▸ howner, hgives, hmatches⟩
  · rintro ⟨hfield, howner, hgives, hmatches⟩
    have hfirst := Context.hasOutputs_ofSegment_iff.mp (hgives.hasOutputs r catalog s)
    refine ⟨fun i w hi hw => ?_,
      (hdepths.outputs label).mpr ⟨first, owner, [field], rfl, hgives⟩, hmatches⟩
    match i, hi, hw with
    | 1, _, rfl => exact hnames.symm ▸ howner
    | 2, _, rfl => exact hword.mpr ⟨by simpa using hfirst, hfield⟩

/-- Nothing comes after an output. -/
theorem items_resolveIn_of_four_le (h : 4 ≤ path.segments.length) :
    (r.resolveIn catalog s path).items = [] := by
  rcases r.resolveIn_cases catalog s path with ⟨hend, -⟩ | ⟨hend, -⟩
  · rw [hend]
    rfl
  · rw [hend, candidatesIn_of_three_le r catalog s _ (by omega)]
    rfl

end resolveIn

/-- **Where every path ends.**  It is abandoned exactly if one of its words is no candidate of the
depth before.  Otherwise those candidates of its last depth are offered, in their order, whose
labels go with what has been typed.  The candidates are names first, then the word `outputs`, then
the outputs of what the second word names.  So after two words only `outputs` is offered, after
three words only outputs, and after more nothing. -/
theorem resolve_spec (r : Request) (catalog : Catalog (StateM σ)) (s : σ) (path : Path) :
    (r.OffersByDepth catalog s path.segments fun depth =>
      (r.candidatesIn catalog s path.segments depth).map Item.label) ∧
    (r.resolveIn catalog s path = .abandoned ↔
      ∃ i w, 1 ≤ i ∧ path.segments[i]? = some w ∧
        w ∉ (r.candidatesIn catalog s path.segments (i - 1)).map Item.label) ∧
    (r.resolveIn catalog s path ≠ .abandoned →
      r.resolveIn catalog s path = .resolved (path.segments.length - 1)
        ((r.candidatesIn catalog s path.segments (path.segments.length - 1)).filter fun item =>
          Text.fuzzyMatches path.stem.toList item.label.toList)) ∧
    (∀ first owner, path.segments = [first, owner] →
      (r.resolveIn catalog s path).items
        = if first ∈ ["jobs", "needs", "steps"] ∧ owner ∈ r.namesAfter (some first) ∧
            Text.fuzzyMatches path.stem.toList "outputs".toList = true then
            [Item.ofLabel "outputs" .output]
          else []) ∧
    (∀ first owner field label, path.segments = [first, owner, field] →
      (label ∈ (r.resolveIn catalog s path).items.map Item.label ↔
        field = "outputs" ∧ owner ∈ r.namesAfter (some first) ∧
          r.GivesOutput catalog s first owner label ∧
          Text.fuzzyMatches path.stem.toList label.toList = true)) ∧
    (4 ≤ path.segments.length → (r.resolveIn catalog s path).items = []) := by
  exact ⟨r.offersByDepth catalog s path.segments, r.resolveIn_eq_abandoned_iff catalog s path,
    r.resolveIn_of_ne_abandoned catalog s path, fun _ _ => r.items_resolveIn_two catalog s path,
    fun _ _ _ _ => r.mem_map_label_items_three catalog s path,
    r.items_resolveIn_of_four_le catalog s path⟩

/-- A workflow in which a step uses an action and writes an output, and another one asks for its
outputs. -/
def stepOutputsText : Text :=
  ("jobs:\n  b:\n    steps:\n    - id: build\n      uses: a/b@v1\n" ++
    "      run: echo dry=1 >> $GITHUB_OUTPUT\n    - name: $\x7b\x7b steps.build.outputs.d").toList

/-- The tree of `stepOutputsText`. -/
def stepOutputsTree : Tree :=
  ⟨#[⟨none, none, .mapping, none, [1], 0, 10, Span.upTo 0 134⟩,
    ⟨some "jobs", none, .mapping, some 0, [2], 0, 10, Span.upTo 0 134⟩,
    ⟨some "b", none, .mapping, some 1, [3], 0, 10, Span.upTo 8 134⟩,
    ⟨some "steps", none, .sequence, some 2, [4, 8], 0, 10, Span.upTo 15 134⟩,
    ⟨none, none, .mapping, some 3, [5, 6, 7], 0, 8, Span.upTo 26 101⟩,
    ⟨some "id", some "build", .scalar, some 4, [], 0, 6, Span.upTo 28 44⟩,
    ⟨some "uses", some "a/b@v1", .scalar, some 4, [], 1, 7, Span.upTo 44 63⟩,
    ⟨some "run", some "echo dry=1 >> $GITHUB_OUTPUT", .scalar, some 4, [], 2, 8,
      Span.upTo 63 101⟩,
    ⟨none, none, .mapping, some 3, [9], 1, 10, Span.upTo 101 134⟩,
    ⟨some "name", some "$\x7b\x7b steps.build.outputs.d", .scalar, some 8, [], 0, 10,
      Span.upTo 103 134⟩]⟩

/-- The path at the end of `stepOutputsText`. -/
def stepOutputsPath : Path := ⟨["steps", "build", "outputs"], "d", Span.upTo 133 134⟩

/-- The request at the end of `stepOutputsText`. -/
def stepOutputsRequest : Request :=
  ⟨stepOutputsText, 134, some stepOutputsPath, ⟨some stepOutputsTree, .workflow, 134⟩,
    ⟨some stepOutputsTree, .workflow, 134⟩⟩

/-- A catalog that knows two outputs of one action, and counts how often it is asked. -/
def countingCatalog : Catalog (StateM Nat) where
  inputs _ := pure Dictionary.empty
  outputs uses asked :=
    (if uses = "a/b@v1" then ⟨[("digest", "The digest"), ("path", "")], by decide⟩
      else Dictionary.empty, asked + 1)

/-- The outputs of a step are those of its action and those that it writes, as far as they go with
what has been typed. -/
theorem items_stepOutputsRequest :
    Tree.decode? stepOutputsText = .ok (some stepOutputsTree) ∧
    Path.atCaret? stepOutputsText 134 = .ok (some stepOutputsPath) ∧
    stepOutputsRequest.resolveIn countingCatalog 0 stepOutputsPath
      = .resolved 2 [⟨"digest", .output, some "The digest", none, 0⟩,
        ⟨"dry", .output, some "1", none, 2⟩] ∧
    stepOutputsRequest.GivesOutput countingCatalog 0 "steps" "build" "digest" ∧
    stepOutputsRequest.GivesOutput countingCatalog 0 "steps" "build" "dry" := by
  obtain ⟨-, -, hresolved, -, houtputs, -⟩ :=
    resolve_spec stepOutputsRequest countingCatalog 0 stepOutputsPath
  have hend := hresolved (by decide +kernel)
  have hlabels := fun label => houtputs "steps" "build" "outputs" label rfl
  refine ⟨by decide +kernel, by decide +kernel, hend.trans (by decide +kernel),
    ((hlabels "digest").mp (by decide +kernel)).2.2.1,
    ((hlabels "dry").mp (by decide +kernel)).2.2.1⟩

end Request

end WorkflowLens
