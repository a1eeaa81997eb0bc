import WorkflowLens.Proofs.Action.Calls
import WorkflowLens.Proofs.Tree.Packing

/-!
# What resolving gives

Whoever asks for an action gets one, unless there is a fault.  If nothing can be found out about it,
the action has no inputs and no outputs, and the cache keeps it for a shorter while, so that it is
asked for again soon.

There are many reasons why nothing can be found out, and they arise in different places: there is no
account, the host does not answer, the project has no such file, the file is no YAML document or an
empty one.  They are listed here as rules, one for each reason, besides the rules for an action
whose definition is found and for a text that names no file.  The rules do not say in which order
anything is tried.  Still they leave no choice, since no two of them tell different things about one
text.  Every text falls under one of them, unless its definition is too long for the spans of its
nodes.

Until when an action is good is a time, and there is a last one.  If the lifetime of a success or
the one that the rules give leads behind it, there is no action, and the cache stays as it is.

* `Sources.Provides`, `Sources.given_eq_ok_iff`: when the content of a file is had.
* `Sources.Tells`: the rules.
* `Sources.tells_iff`, `Sources.exists_tells_iff`: what the sources tell about a text is what the
  rules say, and when they say something.
* `Session.resolve_outcome`: when resolving gives an action, which one, and what it does to the
  cache.
-/

namespace WorkflowLens

/-! ## Definitions -/

namespace Definition

/-- What a document declares when it is read as an action or as a workflow. -/
def ofTree (isAction : Bool) (tree : Tree) : Definition :=
  let ix := Index.ofTree (some tree) (if isAction then .action else .workflow) 0
  ⟨ix.inputs, ix.outputs⟩

variable {content : Text} {tree kept : Tree}

theorem ofText_of_decode (h : Tree.decode content = .ok tree) (hkept : tree.pack = .ok kept)
    (isAction : Bool) : ofText isAction content = .ok (.ok (ofTree isAction kept)) := by
  unfold ofText
  simp only [h, hkept]
  rfl

theorem ofText_of_pack_eq_error (h : Tree.decode content = .ok tree) {fault : Fault}
    (hfault : tree.pack = .error fault) (isAction : Bool) :
    ofText isAction content = .error fault := by
  unfold ofText
  simp only [h, hfault]
  rfl

theorem ofText_of_yaml {cause : Yaml.Error} (h : Yaml.Value.ofText content = .error cause)
    (isAction : Bool) : ofText isAction content = .ok (.error (.yaml cause)) := by
  rw [ofText, Tree.decode_of_error h]

theorem ofText_of_isNull {value : Yaml.Value} (h : Yaml.Value.ofText content = .ok value)
    (hnull : Outline.isNull value = true) (isAction : Bool) :
    ofText isAction content = .ok (.error .emptyDocument) := by
  rw [ofText, Tree.decode_of_isNull h hnull]

end Definition

/-! ## Contents -/

namespace Sources

variable {s : Sources} {r : Reference} {content : Text}

/-- The content of the file that a reference names is had: the host may be asked and gives it, or
it is in the project. -/
inductive Provides (s : Sources) : Reference → Text → Prop
  | fetched {file : RemoteFile} {content : Text} (haccount : s.account ≠ some false)
      (hanswer : s.host file = .ok content) : Provides s (.remote file) content
  | read {files : Text → Option Text} {path content : Text} (hproject : s.project = some files)
      (hfile : files path = some content) : Provides s (.project path) content

theorem isAccountAvailable_iff : s.isAccountAvailable = true ↔ s.account ≠ some false := by
  unfold isAccountAvailable
  cases s.account with
  | none => simp
  | some present => cases present <;> simp

/-- The content of a file is given if it is had. -/
theorem given_eq_ok_iff : s.given r = .ok content ↔ s.Provides r content := by
  rw [given_eq]
  constructor
  · intro h
    cases r with
    | remote file =>
      cases havailable : s.isAccountAvailable with
      | true =>
        simp only [callFor?, havailable, if_true, answer] at h
        cases hanswer : s.host file with
        | error cause =>
          rw [hanswer] at h
          cases h
        | ok answer =>
          rw [hanswer] at h
          cases h
          exact .fetched (isAccountAvailable_iff.mp havailable) hanswer
      | false =>
        simp only [callFor?, havailable, Bool.false_eq_true, if_false, answer] at h
        cases h
    | project path =>
      simp only [callFor?, answer] at h
      split at h
      · next found hread =>
        cases h
        obtain ⟨files, hproject, hfile⟩ := Option.bind_eq_some_iff.mp hread
        exact .read hproject hfile
      · cases h
    | docker image => cases h
    | unresolved => cases h
  · intro h
    cases h with
    | fetched haccount hanswer =>
      simp only [callFor?, isAccountAvailable_iff.mpr haccount, if_true, answer, hanswer]
      rfl
    | read hproject hfile =>
      simp only [callFor?, answer, hproject, Option.bind_some, hfile]
      rfl

/-- A file that is not had has no definition. -/
theorem exists_found_eq_error (h : ∀ content, ¬ s.Provides r content) (isAction : Bool) :
    ∃ cause, s.found r isAction = .ok (.error cause) := by
  rw [found_eq]
  cases hcontent : s.given r with
  | error cause => exact ⟨cause, rfl⟩
  | ok content => exact absurd (given_eq_ok_iff.mp hcontent) (h content)

theorem Provides.found_eq (h : s.Provides r content) (isAction : Bool) :
    s.found r isAction = (Definition.ofText isAction content).map (·.mapError .invalid) := by
  rw [Sources.found_eq, given_eq_ok_iff.mpr h]

/-- Only references to files have contents. -/
theorem Provides.isFetchable (h : s.Provides r content) : r.isFetchable = true := by
  cases h <;> rfl

end Sources

/-! ## What the sources tell -/

namespace Sources

/-- The inputs and outputs that the sources tell of a text at a time, and until when this is
good. -/
inductive Tells (s : Sources) (l : Lifetimes) (now : Nat) (uses : String) :
    Definition → Nat → Prop
  /-- The file is had and has a tree that can be kept: it declares the inputs and outputs. -/
  | declared {content : Text} {tree kept : Tree}
      (hcontent : s.Provides (Reference.ofUses uses.toList) content)
      (htree : Tree.decode content = .ok tree) (hkept : tree.pack = .ok kept) :
      Tells s l now uses (.ofTree (namesAction uses.toList) kept) (now + l.success)
  /-- The host may be asked with an account only, and there is none. -/
  | noAccount {file : RemoteFile} (href : Reference.ofUses uses.toList = .remote file)
      (haccount : s.account = some false) : Tells s l now uses .none (now + l.failure)
  /-- The host does not give the file. -/
  | notFetched {file : RemoteFile} {cause : FetchError}
      (href : Reference.ofUses uses.toList = .remote file)
      (hanswer : s.host file = .error cause) : Tells s l now uses .none (now + l.failure)
  /-- There is no such file in the project, or no project. -/
  | notRead {path : Text} (href : Reference.ofUses uses.toList = .project path)
      (hfile : ∀ files, s.project = some files → files path = Option.none) :
      Tells s l now uses .none (now + l.failure)
  /-- The file is no YAML document. -/
  | notYaml {content : Text} {cause : Yaml.Error}
      (hcontent : s.Provides (Reference.ofUses uses.toList) content)
      (hvalue : Yaml.Value.ofText content = .error cause) :
      Tells s l now uses .none (now + l.failure)
  /-- The file is an empty document. -/
  | emptyDocument {content : Text} {value : Yaml.Value}
      (hcontent : s.Provides (Reference.ofUses uses.toList) content)
      (hvalue : Yaml.Value.ofText content = .ok value) (hnull : Outline.isNull value = true) :
      Tells s l now uses .none (now + l.failure)
  /-- The text names an image. -/
  | image {image : Text} (href : Reference.ofUses uses.toList = .docker image) :
      Tells s l now uses .none (now + l.success)
  /-- The text is of no known form. -/
  | unresolved (href : Reference.ofUses uses.toList = .unresolved) :
      Tells s l now uses .none (now + l.success)

variable {s : Sources} {l : Lifetimes} {now : Nat} {uses : String}

/-- What is told of a file whose definition is found. -/
theorem of_found_ok {d : Definition}
    (hfetchable : (Reference.ofUses uses.toList).isFetchable = true)
    (hfound : Action.found s uses = .ok (.ok d)) :
    (∃ result, Action.found s uses = .ok result) ∧ d = Action.definitionOf s uses ∧
      now + l.success = now + Action.lifetime s l uses := by
  rw [Action.lifetime_of_isFetchable hfetchable, Action.definitionOf, hfound]
  exact ⟨⟨_, rfl⟩, rfl, rfl⟩

/-- What is told of a file whose definition cannot be had. -/
theorem of_found_error {cause : ResolveError}
    (hfetchable : (Reference.ofUses uses.toList).isFetchable = true)
    (hfound : Action.found s uses = .ok (.error cause)) :
    (∃ result, Action.found s uses = .ok result) ∧ .none = Action.definitionOf s uses ∧
      now + l.failure = now + Action.lifetime s l uses := by
  rw [Action.lifetime_of_isFetchable hfetchable, Action.definitionOf, hfound]
  exact ⟨⟨_, rfl⟩, rfl, rfl⟩

/-- What is told of a text that names no file. -/
theorem of_not_isFetchable (hfetchable : (Reference.ofUses uses.toList).isFetchable = false) :
    (∃ result, Action.found s uses = .ok result) ∧ .none = Action.definitionOf s uses ∧
      now + l.success = now + Action.lifetime s l uses := by
  obtain ⟨cause, hcause⟩ := Action.exists_found_of_not_isFetchable (s := s) hfetchable
  rw [Action.lifetime_of_not_isFetchable hfetchable, Action.definitionOf, hcause]
  exact ⟨⟨_, rfl⟩, rfl, rfl⟩

/-- What the rules say is what the sources tell. -/
theorem Tells.eq {d : Definition} {expiresAt : Nat} (h : s.Tells l now uses d expiresAt) :
    (∃ result, Action.found s uses = .ok result) ∧ d = Action.definitionOf s uses ∧
      expiresAt = now + Action.lifetime s l uses := by
  have hlost : (∀ content, ¬ s.Provides (Reference.ofUses uses.toList) content) →
      ∃ cause, Action.found s uses = .ok (.error cause) :=
    fun hnot => exists_found_eq_error hnot _
  cases h with
  | declared hcontent htree hkept =>
    refine of_found_ok hcontent.isFetchable ?_
    rw [Action.found, hcontent.found_eq, Definition.ofText_of_decode htree hkept]
    rfl
  | noAccount href haccount =>
    obtain ⟨cause, hcause⟩ := hlost fun content hcontent => by
      rw [href] at hcontent
      cases hcontent with
      | fetched hpresent _ => exact hpresent haccount
    exact of_found_error (by rw [href]; rfl) hcause
  | notFetched href hanswer =>
    obtain ⟨cause, hcause⟩ := hlost fun content hcontent => by
      rw [href] at hcontent
      cases hcontent with
      | fetched _ hgiven => cases hanswer.symm.trans hgiven
    exact of_found_error (by rw [href]; rfl) hcause
  | notRead href hfile =>
    obtain ⟨cause, hcause⟩ := hlost fun content hcontent => by
      rw [href] at hcontent
      cases hcontent with
      | read hproject hfound => cases (hfile _ hproject).symm.trans hfound
    exact of_found_error (by rw [href]; rfl) hcause
  | @notYaml content cause hcontent hvalue =>
    have hfound : Action.found s uses = .ok (.error (.invalid (.yaml cause))) := by
      rw [Action.found, hcontent.found_eq, Definition.ofText_of_yaml hvalue]
      rfl
    exact of_found_error hcontent.isFetchable hfound
  | emptyDocument hcontent hvalue hnull =>
    have hfound : Action.found s uses = .ok (.error (.invalid .emptyDocument)) := by
      rw [Action.found, hcontent.found_eq, Definition.ofText_of_isNull hvalue hnull]
      rfl
    exact of_found_error hcontent.isFetchable hfound
  | image href => exact of_not_isFetchable (by rw [href]; rfl)
  | unresolved href => exact of_not_isFetchable (by rw [href]; rfl)

/-- The definition of a text can be kept, if its file is had and has a tree. -/
def Keeps (s : Sources) (uses : String) : Prop :=
  ∀ content tree, s.Provides (Reference.ofUses uses.toList) content →
    Tree.decode content = .ok tree → ∃ kept, tree.pack = .ok kept

/-- Files below the bound can be kept. -/
theorem keeps_of_lt (h : ∀ content, s.Provides (Reference.ofUses uses.toList) content →
    content.byteSize < Offset.bound) : s.Keeps uses :=
  fun content _ hcontent htree =>
    ⟨_, (Tree.isLocated_of_decode htree).pack_eq (h content hcontent)⟩

/-- A file that is had is a definition, or no YAML document, or an empty one. -/
theorem Provides.exists_tells {content : Text}
    (h : s.Provides (Reference.ofUses uses.toList) content) (hkeeps : s.Keeps uses) :
    ∃ d expiresAt, s.Tells l now uses d expiresAt := by
  cases hvalue : Yaml.Value.ofText content with
  | error cause => exact ⟨_, _, .notYaml h hvalue⟩
  | ok value =>
    cases hnull : Outline.isNull value with
    | true => exact ⟨_, _, .emptyDocument h hvalue hnull⟩
    | false =>
      obtain ⟨tree, htree, -⟩ := Tree.exists_decode_of_value hvalue hnull
      obtain ⟨kept, hkept⟩ := hkeeps content tree h htree
      exact ⟨_, _, .declared h htree hkept⟩

/-- Every text whose definition can be kept falls under one of the rules. -/
theorem Keeps.exists_tells (hkeeps : s.Keeps uses) (l : Lifetimes) (now : Nat) :
    ∃ d expiresAt, s.Tells l now uses d expiresAt := by
  cases href : Reference.ofUses uses.toList with
  | remote file =>
    by_cases haccount : s.account = some false
    · exact ⟨_, _, .noAccount href haccount⟩
    cases hanswer : s.host file with
    | error cause => exact ⟨_, _, .notFetched href hanswer⟩
    | ok content =>
      have hcontent : s.Provides (Reference.ofUses uses.toList) content := by
        rw [href]
        exact .fetched haccount hanswer
      exact hcontent.exists_tells hkeeps
  | project path =>
    by_cases hfile : ∀ files, s.project = some files → files path = Option.none
    · exact ⟨_, _, .notRead href hfile⟩
    push Not at hfile
    obtain ⟨files, hproject, hfound⟩ := hfile
    obtain ⟨content, hread⟩ := Option.ne_none_iff_exists'.mp hfound
    have hcontent : s.Provides (Reference.ofUses uses.toList) content := by
      rw [href]
      exact .read hproject hread
    exact hcontent.exists_tells hkeeps
  | docker image => exact ⟨_, _, .image href⟩
  | unresolved => exact ⟨_, _, .unresolved href⟩

/-- If something is found for a text, its definition can be kept. -/
theorem keeps_of_found_eq_ok {result : Except ResolveError Definition}
    (h : Action.found s uses = .ok result) : s.Keeps uses := by
  intro content tree hcontent htree
  cases hkept : tree.pack with
  | ok kept => exact ⟨kept, rfl⟩
  | error fault =>
    rw [Action.found, hcontent.found_eq, Definition.ofText_of_pack_eq_error htree hkept] at h
    cases h

/-- **Every text falls under one of the rules, unless its definition cannot be kept.** -/
theorem exists_tells_iff :
    (∃ d expiresAt, s.Tells l now uses d expiresAt) ↔ s.Keeps uses := by
  constructor
  · rintro ⟨d, expiresAt, h⟩
    obtain ⟨⟨result, hresult⟩, -⟩ := h.eq
    exact keeps_of_found_eq_ok hresult
  · exact fun hkeeps => hkeeps.exists_tells l now

/-- **The rules say exactly what the sources tell.** -/
theorem tells_iff {d : Definition} {expiresAt : Nat} : s.Tells l now uses d expiresAt ↔
    (∃ result, Action.found s uses = .ok result) ∧ d = Action.definitionOf s uses ∧
      expiresAt = now + Action.lifetime s l uses := by
  refine ⟨Tells.eq, ?_⟩
  rintro ⟨⟨result, hresult⟩, rfl, rfl⟩
  obtain ⟨d, expiresAt, h⟩ := (keeps_of_found_eq_ok hresult).exists_tells l now
  obtain ⟨-, rfl, rfl⟩ := h.eq
  exact h

/-- There is no fault exactly if the rules say something, and the times are not too late. -/
theorem fits_iff : Action.Fits s l now uses ↔ now + l.success ≤ Time.latest ∧
    ∃ d expiresAt, s.Tells l now uses d expiresAt ∧ expiresAt ≤ Time.latest := by
  simp only [tells_iff]
  constructor
  · exact fun h => ⟨h.success_le, _, _, ⟨h.found_ok, rfl, rfl⟩, h.lifetime_le⟩
  · rintro ⟨hsuccess, d, expiresAt, ⟨hfound, -, rfl⟩, hle⟩
    exact ⟨hsuccess, hfound, hle⟩

end Sources

/-! ## Resolving -/

namespace Session

/-- **What resolving gives, and what it does to the cache.**  An action of the text that is still
good is given as it is, and nothing changes.  Otherwise the rules say at most one definition and
one time, and they say them unless the definition is too long to be kept.  There is a new action
exactly if they do, and their time and that of a success are not behind the last one.  It is kept
under the text, and it has the text, what the text names, the definition and the time.  The actions
of other texts stay in any case, and without an action the whole cache does. -/
theorem resolve_outcome (s : Session) (uses : String) :
    let reply := ((resolve uses).run.run s).1
    let after := ((resolve uses).run.run s).2
    let rules := s.sources.Tells s.lifetimes s.now uses
    (∀ other, other ≠ uses → after.cache.get? other = s.cache.get? other) ∧
    (∀ a, reply = .ok a → after.cache.get? uses = some a) ∧
    (∀ fault, reply = .error fault → after.cache = s.cache) ∧
    (∀ known, s.cache.get? uses = some known → s.now < known.expiresAt →
      reply = .ok known ∧ after = s) ∧
    (∀ d expiresAt d' expiresAt', rules d expiresAt → rules d' expiresAt' →
      d = d' ∧ expiresAt = expiresAt') ∧
    ((∃ d expiresAt, rules d expiresAt) ↔ s.sources.Keeps uses) ∧
    ((∀ content, s.sources.Provides (Reference.ofUses uses.toList) content →
      content.byteSize < Offset.bound) → s.sources.Keeps uses) ∧
    ((∀ known, s.cache.get? uses = some known → known.expiresAt ≤ s.now) →
      ((∃ a, reply = .ok a) ↔ s.now + s.lifetimes.success ≤ Time.latest ∧
        ∃ d expiresAt, rules d expiresAt ∧ expiresAt ≤ Time.latest) ∧
      ∀ a, reply = .ok a → a.uses = uses ∧ a.reference = Reference.ofUses uses.toList ∧
        a.isAction = namesAction uses.toList ∧ rules ⟨a.inputs, a.outputs⟩ a.expiresAt) := by
  intro reply after rules
  have hchoice : ∀ d expiresAt d' expiresAt', rules d expiresAt → rules d' expiresAt' →
      d = d' ∧ expiresAt = expiresAt' := by
    intro d expiresAt d' expiresAt' h h'
    obtain ⟨-, rfl, rfl⟩ := h.eq
    obtain ⟨-, rfl, rfl⟩ := h'.eq
    exact ⟨rfl, rfl⟩
  cases hfresh : s.cache.fresh? uses s.now with
  | some known =>
    obtain ⟨hget, hgood⟩ := Cache.fresh?_eq_some_iff.mp hfresh
    have hrun : (resolve uses).run.run s = (.ok known, s) := run_resolve_of_fresh hfresh
    have hreply : reply = .ok known := congrArg Prod.fst hrun
    have hafter : after = s := congrArg Prod.snd hrun
    rw [hreply, hafter]
    refine ⟨fun _ _ => rfl, ?_, fun _ _ => rfl, ?_, hchoice, Sources.exists_tells_iff,
      Sources.keeps_of_lt, ?_⟩
    · rintro a ⟨⟩
      exact hget
    · intro other hother _
      exact ⟨congrArg Except.ok (Option.some.inj (hget.symm.trans hother)), rfl⟩
    · intro hstale
      exact absurd hgood (Nat.not_lt.mpr (hstale known hget))
  | none =>
    have hrun : (resolve uses).run.run s = (s.tells uses, s.afterAsking uses) :=
      run_resolve_of_not_fresh hfresh
    have hreply : reply = s.tells uses := congrArg Prod.fst hrun
    have hafter : after = s.afterAsking uses := congrArg Prod.snd hrun
    rw [hreply, hafter]
    refine ⟨?_, ?_, ?_, ?_, hchoice, Sources.exists_tells_iff, Sources.keeps_of_lt,
      fun _ => ⟨?_, ?_⟩⟩
    · intro other hother
      rw [get?_afterAsking, if_neg hother]
    · intro a ha
      rw [get?_afterAsking, if_pos rfl, ha]
      rfl
    · intro fault hfault
      show s.cache.insertTold (s.tells uses) = s.cache
      rw [hfault, Cache.insertTold]
    · intro known hknown hgood
      cases hfresh.symm.trans (Cache.fresh?_eq_some_iff.mpr ⟨hknown, hgood⟩)
    · rw [← Sources.fits_iff]
      constructor
      · rintro ⟨a, ha⟩
        exact (Action.of_told_eq_ok ha).1
      · exact fun hfits => ⟨_, Action.told_of_fits hfits⟩
    · intro a ha
      obtain ⟨hfits, rfl⟩ := Action.of_told_eq_ok ha
      exact ⟨rfl, rfl, rfl, Sources.tells_iff.mpr ⟨hfits.found_ok, rfl, rfl⟩⟩

/-! ### A project with one folder -/

/-- The content of a file that declares one input. -/
def oneInputText : Text := "inputs:\n  x: y".toList

/-- The tree of the file that declares one input. -/
def oneInputTree : Tree :=
  ⟨#[⟨none, none, .mapping, none, [1], 0, 3, Span.upTo 0 14⟩,
    ⟨some "inputs", none, .mapping, some 0, [2], 0, 3, Span.upTo 0 14⟩,
    ⟨some "x", some "y", .scalar, some 1, [], 0, 3, Span.upTo 10 14⟩]⟩

/-- The session of a project that has a definition in the folder `a` only. -/
def oneFolder : Session :=
  start ⟨5, 3⟩ ⟨RemoteHost.offline, none,
    some fun path => if path = "./a/action.yml".toList then some oneInputText else none⟩ 7

/-- The definition in the folder is found and good for five seconds, and that there is none in
another folder is good for three seconds. -/
theorem resolve_oneFolder :
    (∃ a, ((resolve "./a").run.run oneFolder).1 = .ok a ∧ a.inputs.names = ["x"] ∧
      a.expiresAt = 12) ∧
    (∃ a, ((resolve "./b").run.run oneFolder).1 = .ok a ∧ a.inputs = Dictionary.empty ∧
      a.outputs = Dictionary.empty ∧ a.expiresAt = 10) := by
  have hstale : ∀ uses known, oneFolder.cache.get? uses = some known →
      known.expiresAt ≤ oneFolder.now := by
    intro uses known h
    rw [show oneFolder.cache = Cache.empty from rfl, Cache.get?_empty] at h
    cases h
  constructor
  · have href : Reference.ofUses "./a".toList = .project "./a/action.yml".toList := by
      decide +kernel
    have hcontent : oneFolder.sources.Provides (Reference.ofUses "./a".toList) oneInputText := by
      rw [href]
      exact .read rfl (if_pos rfl)
    have htree : Tree.decode oneInputText = .ok oneInputTree := by decide +kernel
    have hkept : oneInputTree.pack = .ok oneInputTree := by decide +kernel
    have hrule : oneFolder.sources.Tells oneFolder.lifetimes oneFolder.now "./a" _ _ :=
      .declared hcontent htree hkept
    obtain ⟨-, -, -, -, hchoice, -, -, hnew⟩ := resolve_outcome oneFolder "./a"
    obtain ⟨hanswers, houtcome⟩ := hnew (hstale "./a")
    obtain ⟨a, ha⟩ := hanswers.mpr ⟨by decide, _, _, hrule, by decide⟩
    obtain ⟨-, -, -, hrules⟩ := houtcome a ha
    obtain ⟨hdeclared, htime⟩ := hchoice _ _ _ _ hrules hrule
    refine ⟨a, ha, ?_, htime⟩
    have hnames : (Definition.ofTree (namesAction "./a".toList) oneInputTree).inputs.names
        = ["x"] := by decide +kernel
    rwa [← hdeclared] at hnames
  · have href : Reference.ofUses "./b".toList = .project "./b/action.yml".toList := by
      decide +kernel
    have hrule : oneFolder.sources.Tells oneFolder.lifetimes oneFolder.now "./b" _ _ :=
      .notRead href fun files hfiles => by
        rw [← Option.some.inj hfiles]
        exact if_neg (by decide +kernel)
    obtain ⟨-, -, -, -, hchoice, -, -, hnew⟩ := resolve_outcome oneFolder "./b"
    obtain ⟨hanswers, houtcome⟩ := hnew (hstale "./b")
    obtain ⟨a, ha⟩ := hanswers.mpr ⟨by decide, _, _, hrule, by decide⟩
    obtain ⟨-, -, -, hrules⟩ := houtcome a ha
    obtain ⟨hnone, htime⟩ := hchoice _ _ _ _ hrules hrule
    exact ⟨a, ha, congrArg Definition.inputs hnone, congrArg Definition.outputs hnone, htime⟩

/-- **If a success is good for the longest time that can be said, nothing is given after the first
second**, not even for an image, which needs no file.  Nothing is kept either. -/
theorem resolve_longest_lifetime :
    let s := start ⟨Time.latest, 600⟩ Sources.offline 1
    Reference.ofUses "docker://alpine".toList = .docker "alpine".toList ∧
      s.cache.get? "docker://alpine" = none ∧
      ((resolve "docker://alpine").run.run s).1 = .error (.time 1 Time.latest) ∧
      ((resolve "docker://alpine").run.run s).2.cache.actions = [] := by
  exact ⟨by decide +kernel, rfl, by decide +kernel, by decide +kernel⟩

end Session

end WorkflowLens
