import WorkflowLens.Action.Resolver

/-!
# What the sources tell, and with which calls

A call is recorded where it is made, on the way to a definition, and so what is recorded has to be
brought together with what is told.  For a file there is exactly one call, and the content of the
file is the answer to that call; a text that names no file takes none.

There are three faults on the way.  The lifetime of a success is added to the time before anything
is asked, and so a fault there comes without a call.  The content of a file may be too long for the
spans of its nodes, and the lifetime of a failure is added when the failure has come.  So these two
come behind the call.  In all three cases nothing is told.

* `Sources.run_content`: the call that is made for a file, and its answer.
* `Action.told`, `Action.callsFor`, `Action.run_ofSources`: what is told of a text, and the calls.
* `Action.Fits`, `Action.told_of_fits`, `Action.exists_told_eq_error`: there is something to tell
  exactly if there is no fault.
* `Cache.run_resolve_of_fresh`, `Cache.run_resolve_of_not_fresh`: the same by way of a cache.
-/

namespace WorkflowLens

/-! ## Calls and their answers -/

/-- Asking where there may be a fault is asking. -/
theorem Asking.run_lift {α : Type} (x : Asking α) (calls : List Call) :
    (ExceptT.lift x : ExceptT Fault Asking α).run.run calls
      = (.ok (x.run calls).1, (x.run calls).2) := rfl

namespace Sources

/-- The call for the file that a reference names. -/
def callFor? (s : Sources) : Reference → Option Call
  | .remote file => some (if s.isAccountAvailable then .fetch file else .refused file)
  | .project path => some (.read path)
  | _ => none

/-- The answer to a call. -/
def answer (s : Sources) : Call → Except FetchError Text
  | .fetch file => s.host file
  | .refused _ => .error .noAccount
  | .read path =>
    match s.project.bind fun files => files path with
    | some content => .ok content
    | none => .error (.notFound path)

/-- What is given for a reference. -/
def given (s : Sources) (r : Reference) : Except ResolveError Text := ((s.content r).run []).1

/-- The definition that is found for a reference. -/
def found (s : Sources) (r : Reference) (isAction : Bool) :
    Except Fault (Except ResolveError Definition) :=
  ((s.definition r isAction).run.run []).1

variable (s : Sources) (r : Reference)

/-- **For a file one call is made, and its content is the answer to that call.**  Without a file
there is neither. -/
theorem run_content (calls : List Call) :
    (s.content r).run calls = match s.callFor? r with
      | some call => ((s.answer call).mapError .fetch, calls ++ [call])
      | none => (.error (.unsupported r.display), calls) := by
  cases r with
  | remote file =>
    cases havailable : s.isAccountAvailable with
    | true =>
      simp only [content, fetch, callFor?, havailable, if_true, answer]
      rfl
    | false =>
      simp only [content, fetch, callFor?, havailable, Bool.false_eq_true, if_false, answer]
      rfl
  | project path =>
    simp only [content, read, callFor?, answer]
    cases s.project.bind fun files => files path <;> rfl
  | docker image => rfl
  | unresolved => rfl

theorem given_eq : s.given r = match s.callFor? r with
    | some call => (s.answer call).mapError .fetch
    | none => .error (.unsupported r.display) := by
  rw [given, run_content]
  cases s.callFor? r <;> rfl

theorem run_content_eq (calls : List Call) :
    (s.content r).run calls = (s.given r, calls ++ (s.callFor? r).toList) := by
  rw [run_content, given_eq]
  cases s.callFor? r with
  | none => rw [Option.toList_none, List.append_nil]
  | some call => rfl

/-- Looking for a definition makes the calls for its file. -/
theorem run_definition_eq (isAction : Bool) (calls : List Call) :
    (s.definition r isAction).run.run calls
      = (match s.given r with
          | .ok content => (Definition.ofText isAction content).map (·.mapError .invalid)
          | .error cause => .ok (.error cause),
        calls ++ (s.callFor? r).toList) := by
  rw [definition, ExceptT.run_bind, StateT.run_bind]
  refine (congrArg (· >>= _) (Asking.run_lift (s.content r) calls)).trans ?_
  rw [run_content_eq]
  cases s.given r with
  | ok content =>
    have hread : ∀ (x : Except Fault (Except DecodeError Definition)) (calls : List Call),
        ((do return (← liftM x).mapError .invalid) :
          ExceptT Fault Asking (Except ResolveError Definition)).run.run calls
          = (x.map (·.mapError .invalid), calls) := by
      intro x calls
      cases x <;> rfl
    exact hread _ _
  | error cause => rfl

theorem found_eq (isAction : Bool) : s.found r isAction = match s.given r with
    | .ok content => (Definition.ofText isAction content).map (·.mapError .invalid)
    | .error cause => .ok (.error cause) := by
  rw [found, run_definition_eq]

theorem run_definition (isAction : Bool) (calls : List Call) :
    (s.definition r isAction).run.run calls
      = (s.found r isAction, calls ++ (s.callFor? r).toList) := by
  rw [run_definition_eq, found_eq]

variable {s r}

theorem callFor?_eq_none (h : r.isFetchable = false) : s.callFor? r = none := by
  cases r with
  | remote file => cases h
  | project path => cases h
  | docker image => rfl
  | unresolved => rfl

end Sources

/-! ## What is told of a text -/

/-- The definition that declares nothing. -/
def Definition.none : Definition := ⟨Dictionary.empty, Dictionary.empty⟩

namespace Action

/-- An action that declares what is in a definition. -/
def declaring (uses : String) (d : Definition) (expiresAt : Nat) : Action :=
  { unknown uses expiresAt with inputs := d.inputs, outputs := d.outputs }

variable (s : Sources) (l : Lifetimes) (now : Nat) (uses : String)

/-- What the sources tell of a text. -/
def told : Except Fault Action := ((ofSources s l now uses).run.run []).1

/-- The calls that it takes to be told of a text. -/
def callsFor : List Call :=
  if now + l.success ≤ Time.latest then (s.callFor? (Reference.ofUses uses.toList)).toList else []

/-- What is found for a text: its definition, or why it cannot be had. -/
def found : Except Fault (Except ResolveError Definition) :=
  s.found (Reference.ofUses uses.toList) (namesAction uses.toList)

/-- How long it is good what the sources tell of a text. -/
def lifetime : Nat :=
  if (Reference.ofUses uses.toList).isFetchable then
    match found s uses with
    | .ok (.error _) => l.failure
    | _ => l.success
  else l.success

/-- There is no fault on the way to what the sources tell of a text. -/
structure Fits : Prop where
  success_le : now + l.success ≤ Time.latest
  found_ok : ∃ result, found s uses = .ok result
  lifetime_le : now + lifetime s l uses ≤ Time.latest

/-- The definition of a text, which declares nothing if it cannot be had. -/
def definitionOf : Definition :=
  match found s uses with
  | .ok (.ok d) => d
  | _ => .none

/-! ### The ways of asking -/

section run

variable {s l now uses} {calls : List Call}

theorem run_ofSources_of_overflow (h : Time.latest < now + l.success) :
    (ofSources s l now uses).run.run calls = (.error (.time now l.success), calls) := by
  rw [ofSources, Time.after_of_lt h]
  rfl

theorem run_ofSources_of_not_isFetchable (h : now + l.success ≤ Time.latest)
    (hfetchable : (Reference.ofUses uses.toList).isFetchable = false) :
    (ofSources s l now uses).run.run calls = (.ok (unknown uses (now + l.success)), calls) := by
  have hnot : (!(unknown uses (now + l.success)).reference.isFetchable) = true := by
    rw [unknown, hfetchable]
    rfl
  rw [ofSources, Time.after_of_le h]
  exact congrArg (fun x : ExceptT Fault Asking Action => x.run.run calls) (if_pos hnot)

theorem run_ofSources_of_isFetchable (h : now + l.success ≤ Time.latest)
    (hfetchable : (Reference.ofUses uses.toList).isFetchable = true) :
    (ofSources s l now uses).run.run calls
      = (match found s uses with
          | .ok (.ok d) => .ok (declaring uses d (now + l.success))
          | .ok (.error _) => (Time.after now l.failure).map (unknown uses)
          | .error fault => .error fault,
        calls ++ (s.callFor? (Reference.ofUses uses.toList)).toList) := by
  have hnot : ¬ (!(unknown uses (now + l.success)).reference.isFetchable) = true := by
    rw [unknown, hfetchable]
    exact Bool.false_ne_true
  rw [ofSources, Time.after_of_le h]
  refine (congrArg (fun x : ExceptT Fault Asking Action => x.run.run calls)
    (if_neg hnot)).trans ?_
  rw [ExceptT.run_bind, StateT.run_bind, s.run_definition]
  show _ = (match s.found (unknown uses (now + l.success)).reference
    (unknown uses (now + l.success)).isAction with
    | .ok (.ok d) => _ | .ok (.error _) => _ | .error fault => _, _)
  rcases s.found (unknown uses (now + l.success)).reference
    (unknown uses (now + l.success)).isAction with fault | cause | d
  · rfl
  · cases Time.after now l.failure <;> rfl
  · rfl

end run

/-- **What is told does not depend on earlier calls, and new calls come behind them.** -/
theorem run_ofSources (calls : List Call) :
    (ofSources s l now uses).run.run calls
      = (told s l now uses, calls ++ callsFor s l now uses) := by
  rw [told, callsFor]
  rcases Nat.lt_or_ge Time.latest (now + l.success) with hlt | hle
  · rw [run_ofSources_of_overflow hlt, run_ofSources_of_overflow hlt, if_neg (Nat.not_le.mpr hlt),
      List.append_nil]
  rw [if_pos hle]
  cases hfetchable : (Reference.ofUses uses.toList).isFetchable with
  | false =>
    rw [run_ofSources_of_not_isFetchable hle hfetchable,
      run_ofSources_of_not_isFetchable hle hfetchable, Sources.callFor?_eq_none hfetchable,
      Option.toList_none, List.append_nil]
  | true =>
    rw [run_ofSources_of_isFetchable hle hfetchable, run_ofSources_of_isFetchable hle hfetchable]

/-! ### When something is told -/

section told

variable {s l now uses}

theorem lifetime_of_isFetchable (h : (Reference.ofUses uses.toList).isFetchable = true) :
    lifetime s l uses = match found s uses with
      | .ok (.error _) => l.failure
      | _ => l.success :=
  if_pos h

theorem lifetime_of_not_isFetchable (h : (Reference.ofUses uses.toList).isFetchable = false) :
    lifetime s l uses = l.success :=
  if_neg (by rw [h]; exact Bool.false_ne_true)

/-- A text that names no file has no definition. -/
theorem exists_found_of_not_isFetchable
    (h : (Reference.ofUses uses.toList).isFetchable = false) :
    ∃ cause, found s uses = .ok (.error cause) := by
  rw [found, s.found_eq, s.given_eq, Sources.callFor?_eq_none h]
  exact ⟨_, rfl⟩

/-- **Without a fault, the definition is told for its lifetime.** -/
theorem told_of_fits (h : Fits s l now uses) :
    told s l now uses
      = .ok (declaring uses (definitionOf s uses) (now + lifetime s l uses)) := by
  obtain ⟨hle, ⟨result, hresult⟩, hlifetime⟩ := h
  rw [told]
  cases hfetchable : (Reference.ofUses uses.toList).isFetchable with
  | false =>
    obtain ⟨cause, hcause⟩ := exists_found_of_not_isFetchable (s := s) hfetchable
    rw [run_ofSources_of_not_isFetchable hle hfetchable, lifetime_of_not_isFetchable hfetchable,
      definitionOf, hcause]
    rfl
  | true =>
    rw [lifetime_of_isFetchable hfetchable, hresult] at hlifetime
    rw [run_ofSources_of_isFetchable hle hfetchable, lifetime_of_isFetchable hfetchable,
      definitionOf, hresult]
    cases result with
    | ok d => rfl
    | error cause =>
      show (Time.after now l.failure).map (unknown uses) = _
      rw [Time.after_of_le hlifetime]
      rfl

/-- **With a fault, nothing is told.** -/
theorem exists_told_eq_error (h : ¬ Fits s l now uses) :
    ∃ fault, told s l now uses = .error fault := by
  rw [told]
  rcases Nat.lt_or_ge Time.latest (now + l.success) with hlt | hle
  · exact ⟨_, congrArg Prod.fst (run_ofSources_of_overflow hlt)⟩
  cases hfetchable : (Reference.ofUses uses.toList).isFetchable with
  | false =>
    obtain ⟨cause, hcause⟩ := exists_found_of_not_isFetchable (s := s) hfetchable
    refine absurd ⟨hle, ⟨_, hcause⟩, ?_⟩ h
    rwa [lifetime_of_not_isFetchable hfetchable]
  | true =>
    rw [run_ofSources_of_isFetchable hle hfetchable]
    rcases hresult : found s uses with fault | cause | d
    · exact ⟨fault, rfl⟩
    · have hlifetime : Time.latest < now + l.failure := by
        refine Nat.lt_of_not_le fun hle' => h ⟨hle, ⟨_, hresult⟩, ?_⟩
        rwa [lifetime_of_isFetchable hfetchable, hresult]
      refine ⟨.time now l.failure, ?_⟩
      show (Time.after now l.failure).map (unknown uses) = _
      rw [Time.after_of_lt hlifetime]
      rfl
    · refine absurd ⟨hle, ⟨_, hresult⟩, ?_⟩ h
      rwa [lifetime_of_isFetchable hfetchable, hresult]

/-- What is told is what `told_of_fits` says. -/
theorem of_told_eq_ok {a : Action} (h : told s l now uses = .ok a) : Fits s l now uses ∧
    a = declaring uses (definitionOf s uses) (now + lifetime s l uses) := by
  by_cases hfits : Fits s l now uses
  · rw [told_of_fits hfits, Except.ok.injEq] at h
    exact ⟨hfits, h.symm⟩
  · obtain ⟨fault, hfault⟩ := exists_told_eq_error hfits
    rw [hfault] at h
    cases h

theorem uses_of_told {a : Action} (h : told s l now uses = .ok a) : a.uses = uses := by
  rw [(of_told_eq_ok h).2]
  rfl

end told

end Action

/-! ## By way of a cache -/

namespace Cache

/-- The cache with what has been told, if anything has. -/
def insertTold (c : Cache) : Except Fault Action → Cache
  | .ok a => c.insert a
  | .error _ => c

variable {c : Cache} {s : Sources} {l : Lifetimes} {now : Nat} {uses : String}

/-- An action that is found fresh is given without a call. -/
theorem run_resolve_of_fresh {a : Action} (h : c.fresh? uses now = some a) (calls : List Call) :
    (c.resolve s l now uses).run.run calls = (.ok (a, c), calls) := by
  rw [resolve, h]
  rfl

/-- What the sources tell is given otherwise, and kept. -/
theorem run_resolve_of_not_fresh (h : c.fresh? uses now = none) (calls : List Call) :
    (c.resolve s l now uses).run.run calls
      = ((Action.told s l now uses).map fun a => (a, c.insert a),
        calls ++ Action.callsFor s l now uses) := by
  simp only [resolve, h]
  rw [ExceptT.run_bind, StateT.run_bind, Action.run_ofSources]
  cases Action.told s l now uses <;> rfl

/-- What has been told of a text is found under it, and the actions of other texts stay. -/
theorem get?_insertTold (c : Cache) {told : Except Fault Action}
    (huses : ∀ a, told = .ok a → a.uses = uses) (other : String) :
    (c.insertTold told).get? other
      = if other = uses then told.toOption.or (c.get? other) else c.get? other := by
  cases told with
  | error fault =>
    rw [insertTold, Except.toOption, Option.none_or, ite_self]
  | ok a =>
    rw [insertTold, get?_insert, huses a rfl, Except.toOption, Option.some_or]
    simp only [eq_comm]

end Cache

end WorkflowLens
