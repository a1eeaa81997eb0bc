import WorkflowLens.Proofs.Index.Scripts

/-!
# Scripts that write to files

Of the name of a variable only the beginning is read.  So a line that writes an assignment to a file
gives an output if the name of its variable begins with `GITHUB_OUTPUT`, and `GITHUB_OUTPUT_FILE` is
taken for the file of outputs.

This is the only way in which a line that writes to another file can give an output.  A command that
is found anywhere in the text in front of a redirection reads on to the sign of that redirection,
whatever the values are, and so to the line's own variable.  The name of the variable may end with
`echo`, and then a command could go on to the next line; but that line begins with an `echo` of its
own and a blank, which is no assignment.

* `Line.IsRedirection`, `Line.taken?`: a line that writes to a file, and the output that it gives.
* `outputsFrom_redirection?_append_of_not_mem`: a command reads on to the sign of a redirection.
* `CanFollow`, `canFollow_scriptText`: what stands behind a line.
* `Line.IsRedirection.outputsFrom_append`: a line in front of other lines.
* `scriptOutputs_redirections`: the outputs of a script whose lines write to files.
-/

namespace WorkflowLens.Script

open Text (dropWhile_append_cons dropWhile_eq_self_of_head? isBlank isScriptWord stripPrefix?
  stripPrefix?_eq_none_iff stripPrefix?_eq_some_iff)

/-- The name of the variable for the file of outputs. -/
def outputFile : Text := "GITHUB_OUTPUT".toList

/-- The name of a shell variable: letters, digits and underscores. -/
structure IsShellName (name : Text) : Prop where
  ne_nil : name ≠ []
  forall_isScriptWord : ∀ c ∈ name, isScriptWord c = true

theorem isShellName_iff {name : Text} :
    IsShellName name ↔ name ≠ [] ∧ name.all isScriptWord = true := by
  rw [List.all_eq_true]
  exact ⟨fun h => ⟨h.1, h.2⟩, fun h => ⟨h.1, h.2⟩⟩

instance : DecidablePred IsShellName := fun _ => decidable_of_iff _ isShellName_iff.symm

namespace Line

/-- A line that writes an assignment to the file of a variable, or an empty line.  Where the name of
the variable begins like that of the file of outputs, the assignment is one for an output. -/
def IsRedirection : Line → Prop
  | redirected _ o x =>
    ('>' ∉ o.name ∧ '>' ∉ o.value) ∧ IsShellName x.name ∧
      (outputFile <+: x.name → IsOutputName o.name ∧ ∀ c ∈ o.value, isValuePart c = true)
  | command _ => False
  | other text => text = []

theorem isRedirection_redirected_iff {quoting : Quoting} {o : Output} {x : Variable} :
    (redirected quoting o x).IsRedirection ↔
      ('>' ∉ o.name ∧ '>' ∉ o.value) ∧ IsShellName x.name ∧
        (outputFile <+: x.name → IsOutputName o.name ∧ o.value.all isValuePart = true) := by
  rw [List.all_eq_true]
  rfl

instance : DecidablePred IsRedirection
  | redirected _ _ _ => decidable_of_iff _ isRedirection_redirected_iff.symm
  | command _ => inferInstanceAs (Decidable False)
  | other _ => inferInstanceAs (Decidable (_ = _))

/-- The output of a line whose variable begins like that of the file of outputs. -/
def taken? : Line → Option Output
  | redirected _ o x => if outputFile <+: x.name then some o else none
  | _ => none

end Line

/-! ## Up to the sign of a redirection -/

/-- A text goes on to another one without the sign of a redirection. -/
def GoesOnTo (t behind : Text) : Prop := ∃ u, t = u ++ behind ∧ '>' ∉ u

namespace GoesOnTo

variable {t s behind : Text}

theorem trans (ht : GoesOnTo t s) (hs : GoesOnTo s behind) : GoesOnTo t behind := by
  obtain ⟨u, rfl, hu⟩ := ht
  obtain ⟨v, rfl, hv⟩ := hs
  exact ⟨u ++ v, (List.append_assoc ..).symm, fun hmem =>
    (List.mem_append.mp hmem).elim hu hv⟩

theorem of_stripPrefix? {needle : Text} (hneedle : '>' ∉ needle)
    (h : stripPrefix? needle t = some behind) : GoesOnTo t behind :=
  ⟨needle, stripPrefix?_eq_some_iff.mp h, hneedle⟩

variable {p : Char → Bool} (hp : p '>' = false)
include hp

theorem dropWhile (t : Text) : GoesOnTo t (t.dropWhile p) := by
  refine ⟨t.takeWhile p, List.takeWhile_append_dropWhile.symm, fun hmem => ?_⟩
  have hsign := List.mem_takeWhile_imp hmem
  rw [hp] at hsign
  cases hsign

theorem dropOptional (t : Text) : GoesOnTo t (dropOptional p t) := by
  obtain ⟨u, hu, hpart⟩ := exists_append_dropOptional p t
  refine ⟨u, hu.symm, fun hmem => ?_⟩
  have hsign := hpart _ hmem
  rw [hp] at hsign
  cases hsign

end GoesOnTo

theorem goesOnTo_of_dropBlanks? {t behind : Text} (h : dropBlanks? t = some behind) :
    GoesOnTo t behind := by
  cases t with
  | nil => cases h
  | cons c t =>
    rw [dropBlanks?] at h
    split at h
    · next hc =>
      rw [← Option.some.inj h, ← List.dropWhile_cons_of_pos hc]
      exact .dropWhile (by decide) _
    · cases h

theorem goesOnTo_of_assignment? {t behind : Text} {o : Output}
    (h : assignment? t = some (o, behind)) : GoesOnTo t behind := by
  rw [assignment?] at h
  split at h
  · obtain ⟨rest, hrest, hsame⟩ := Option.map_eq_some_iff.mp h
    rw [← (Prod.mk.inj hsame).2]
    exact (GoesOnTo.dropWhile (by decide) t).trans
      ((GoesOnTo.of_stripPrefix? (by decide) hrest).trans
        ((GoesOnTo.dropWhile (by decide) rest).trans (.dropOptional (by decide) _)))
  · cases h

/-- A command that is read goes on to the sign of a redirection, and that decides what is left. -/
theorem exists_goesOnTo_of_redirection? {t rest : Text} {o : Output}
    (h : redirection? t = some (o, rest)) :
    ∃ s, GoesOnTo t ('>' :: s) ∧ behindTarget? ('>' :: s) = some rest := by
  rw [redirection?_eq] at h
  obtain ⟨t₁, hecho, h⟩ := Option.bind_eq_some_iff.mp h
  obtain ⟨t₂, hblanks, h⟩ := Option.bind_eq_some_iff.mp h
  obtain ⟨⟨other, t₃⟩, hassign, h⟩ := Option.bind_eq_some_iff.mp h
  obtain ⟨left, htarget, hsame⟩ := Option.map_eq_some_iff.mp h
  rw [(Prod.mk.inj hsame).2, behindTarget?] at htarget
  obtain ⟨t₄, hsign, hvariable⟩ := Option.bind_eq_some_iff.mp htarget
  have hat := stripPrefix?_eq_some_iff.mp hsign
  refine ⟨'>' :: t₄, ?_, ?_⟩
  · have hlast : GoesOnTo t₃ ('>' :: '>' :: t₄) := by
      rw [← show t₃.dropWhile isBlank = '>' :: '>' :: t₄ from hat]
      exact .dropWhile (by decide) t₃
    exact (GoesOnTo.of_stripPrefix? (by decide +kernel) hecho).trans
      ((goesOnTo_of_dropBlanks? hblanks).trans
        ((GoesOnTo.dropOptional (by decide) t₂).trans
          ((goesOnTo_of_assignment? hassign).trans hlast)))
  · have hself : ('>' :: '>' :: t₄).dropWhile isBlank = '>' :: '>' :: t₄ :=
      List.dropWhile_cons_of_neg (by decide)
    rw [behindTarget?, hself, ← show t₃.dropWhile isBlank = '>' :: '>' :: t₄ from hat, hsign]
    exact hvariable

/-- **A search that begins in front of the sign of a redirection reads on to this sign**, and finds
nothing if the file is another one. -/
theorem outputsFrom_redirection?_append_of_not_mem {u rest : Text} (hu : '>' ∉ u)
    (hno : behindTarget? ('>' :: rest) = none) :
    outputsFrom redirection? 0 (u ++ '>' :: rest) = outputsFrom redirection? 0 rest := by
  have hnone : ∀ v : Text, '>' ∉ v → redirection? (v ++ '>' :: rest) = none := by
    intro v hv
    by_contra hne
    obtain ⟨⟨o, left⟩, hsome⟩ := Option.ne_none_iff_exists'.mp hne
    obtain ⟨s, ⟨w, hsplit, hw⟩, htarget⟩ := exists_goesOnTo_of_redirection? hsome
    obtain rfl := Text.eq_of_append_cons_eq hv hw hsplit
    rw [← List.append_cancel_left hsplit, hno] at htarget
    cases htarget
  induction u with
  | nil =>
    have hfirst : redirection? ('>' :: rest) = none := hnone [] List.not_mem_nil
    rw [List.nil_append, outputsFrom, hfirst]
  | cons c u ih =>
    rw [List.cons_append, outputsFrom, ← List.cons_append, hnone _ hu]
    exact ih fun hmem => hu (List.mem_cons_of_mem c hmem)

/-! ## Behind the name of a variable -/

/-- What can stand behind a line: nothing, or a line feed with no assignment behind it. -/
structure CanFollow (rest : Text) : Prop where
  eq_of_head? : ∀ c ∈ rest.head?, c = '\n'
  lacksAssignment : LacksAssignment rest

/-- The text of a line up to the redirection. -/
def assignmentText (quoting : Quoting) (o : Output) : Text :=
  echoWord ++ ' ' :: (quoting.mark ++ (o.name ++ '=' :: (o.value ++ (quoting.mark ++ [' ']))))

/-- The text from the second sign of a redirection to the name of the variable. -/
def signText (x : Variable) : Text := '>' :: ' ' :: (x.mark ++ '$' :: x.opening)

theorem redirectionText_append (quoting : Quoting) (o : Output) (x : Variable) (t : Text) :
    redirectionText quoting o x ++ t
      = assignmentText quoting o ++ '>' :: (signText x ++ (x.name ++ (x.closing ++ t))) := by
  simp only [redirectionText, assignmentText, signText, Variable.front, List.append_assoc,
    List.cons_append, List.nil_append]

section rest

variable {x : Variable} {rest : Text} (hrest : CanFollow rest)
include hrest

/-- Behind the name of a variable stands a brace, a quote, a line feed or nothing. -/
theorem cases_of_mem_head?_closing {c : Char}
    (hc : c ∈ (x.closing ++ (x.mark ++ rest)).head?) : c = '\x7d' ∨ c = '\x22' ∨ c = '\n' := by
  rw [Variable.closing, Variable.mark] at hc
  split at hc
  · exact .inl (Option.some.inj hc).symm
  · split at hc
    · exact .inr (.inl (Option.some.inj hc).symm)
    · exact .inr (.inr (hrest.eq_of_head? c hc))

theorem lacksAssignment_closing : LacksAssignment (x.closing ++ (x.mark ++ rest)) := by
  rw [Variable.closing, Variable.mark]
  split
  · refine lacksAssignment_of_head? ?_
    rintro c ⟨⟩
    decide
  · split
    · refine lacksAssignment_of_head? ?_
      rintro c ⟨⟩
      decide
    · exact hrest.lacksAssignment

/-- The rest of the name of a variable is passed over up to the end of the line. -/
theorem outputsFrom_append_closing {s : Text} (hs : ∀ c ∈ s, isNamePart c = true) :
    outputsFrom redirection? 0 (s ++ (x.closing ++ (x.mark ++ rest)))
      = outputsFrom redirection? 0 rest := by
  have hhead : ∀ c ∈ (x.closing ++ (x.mark ++ rest)).head?, c ∉ echoWord := by
    intro c hc
    rcases cases_of_mem_head?_closing hrest hc with rfl | rfl | rfl <;> decide +kernel
  have hsigns : 'e' ∉ x.closing ++ x.mark := by
    rw [Variable.closing, Variable.mark]
    split <;> split <;> decide
  rw [outputsFrom_redirection?_append_of_isNamePart hs hhead (lacksAssignment_closing hrest),
    ← List.append_assoc,
    outputsFrom_append_of_not_mem (fun _ => redirection?_eq_none) (by decide +kernel) hsigns]

end rest

/-! ## A line in front of other lines -/

theorem isNamePart_of_isScriptWord {c : Char} (h : isScriptWord c = true) :
    isNamePart c = true := by
  rw [isNamePart, h, Bool.true_or]

section line

variable {quoting : Quoting} {o : Output} {x : Variable}
  (hx : IsShellName x.name)
include hx

theorem exists_head?_name : ∃ c, x.name.head? = some c ∧ c ≠ '\x7b' := by
  obtain ⟨c, name, hname⟩ := List.exists_cons_of_ne_nil hx.ne_nil
  refine ⟨c, by rw [hname]; rfl, ?_⟩
  rintro rfl
  exact absurd (hx.forall_isScriptWord '\x7b' (by rw [hname]; exact List.mem_cons_self)) (by decide)

variable {rest : Text} (hrest : CanFollow rest)
include hrest

/-- A line that writes to a file whose variable begins differently is passed over. -/
theorem outputsFrom_redirection?_redirectionText (hsigns : '>' ∉ o.name ∧ '>' ∉ o.value)
    (hno : ¬ outputFile <+: x.name) :
    outputsFrom redirection? 0 (redirectionText quoting o x ++ (x.mark ++ rest))
      = outputsFrom redirection? 0 rest := by
  obtain ⟨c, hc, hbrace⟩ := exists_head?_name hx
  have hassign : '>' ∉ assignmentText quoting o := by
    have hecho : '>' ∉ echoWord := by decide +kernel
    have hmark : '>' ∉ quoting.mark := by cases quoting <;> decide
    simpa [assignmentText] using ⟨hecho, hmark, hsigns.1, hsigns.2, hmark⟩
  have htarget : behindTarget?
      ('>' :: (signText x ++ (x.name ++ (x.closing ++ (x.mark ++ rest))))) = none := by
    have hother : stripPrefix? outputFile (x.name ++ (x.closing ++ (x.mark ++ rest))) = none := by
      have hend : ∀ c ∈ (x.closing ++ (x.mark ++ rest)).head?, c ∉ outputFile := by
        intro c hc
        rcases cases_of_mem_head?_closing hrest hc with rfl | rfl | rfl <;> decide +kernel
      exact stripPrefix?_eq_none_iff.mpr fun hstarts =>
        hno (Text.isPrefix_of_isPrefix_append hend hstarts)
    have hread : behindTarget? ([] ++ '>' :: '>' :: ' ' :: (x.front ++ (x.mark ++ rest)))
        = (stripPrefix? outputFile (x.name ++ (x.closing ++ (x.mark ++ rest)))).map
            (dropOptional (· == '\x7d')) :=
      behindTarget?_append hc hbrace (by simp) (x.mark ++ rest)
    rw [hother, Option.map_none] at hread
    simpa only [signText, Variable.front, List.append_assoc, List.cons_append, List.nil_append]
      using hread
  have hsign : 'e' ∉ signText x := by
    rw [signText, Variable.mark, Variable.opening]
    split <;> split <;> decide
  rw [redirectionText_append, outputsFrom_redirection?_append_of_not_mem hassign htarget,
    outputsFrom_append_of_not_mem (fun _ => redirection?_eq_none) (by decide +kernel) hsign,
    outputsFrom_append_closing hrest fun c hc =>
      isNamePart_of_isScriptWord (hx.forall_isScriptWord c hc)]

/-- A line that writes to a file whose variable begins like that of the file of outputs gives an
output, and what is left of its variable is passed over. -/
theorem outputsFrom_redirection?_of_isPrefix (hname : IsOutputName o.name)
    (hvalue : ∀ c ∈ o.value, isValuePart c = true) (hstarts : outputFile <+: x.name) :
    outputsFrom redirection? 0 (redirectionText quoting o x ++ (x.mark ++ rest))
      = ⟨o.name, o.value ++ quoting.padding⟩ :: outputsFrom redirection? 0 rest := by
  obtain ⟨c, hc, hbrace⟩ := exists_head?_name hx
  obtain ⟨beyond, hbeyond⟩ := hstarts
  have hparts : ∀ c ∈ beyond, isNamePart c = true := by
    refine fun c hc => isNamePart_of_isScriptWord (hx.forall_isScriptWord c ?_)
    rw [← hbeyond]
    exact List.mem_append_right _ hc
  have htail : x.name ++ (x.closing ++ (x.mark ++ rest))
      = outputFile ++ (beyond ++ (x.closing ++ (x.mark ++ rest))) := by
    rw [← hbeyond, List.append_assoc]
  have hread : redirection? (redirectionText quoting o x ++ (x.mark ++ rest))
      = (stripPrefix? outputFile (x.name ++ (x.closing ++ (x.mark ++ rest)))).map
          fun t => (⟨o.name, o.value ++ quoting.padding⟩, dropOptional (· == '\x7d') t) :=
    redirection?_redirectionText hname hvalue hc hbrace quoting (x.mark ++ rest)
  rw [redirectionText_append, htail, stripPrefix?_append, Option.map_some] at hread
  have hpass := outputsFrom_append_closing (x := x) hrest hparts
  rw [redirectionText_append, htail, ← hpass]
  -- a brace in front of what is left has been read as well, or is passed over
  obtain ⟨brace, htaken, hbraces⟩ := exists_append_dropOptional (· == '\x7d')
    (beyond ++ (x.closing ++ (x.mark ++ rest)))
  have hbrace' : 'e' ∉ brace := fun hmem => absurd (hbraces _ hmem) (by decide)
  have hskip : outputsFrom redirection? 0
        (brace ++ dropOptional (· == '\x7d') (beyond ++ (x.closing ++ (x.mark ++ rest))))
      = outputsFrom redirection? 0
        (dropOptional (· == '\x7d') (beyond ++ (x.closing ++ (x.mark ++ rest)))) :=
    outputsFrom_append_of_not_mem (fun _ => redirection?_eq_none) (by decide +kernel) hbrace' _
  have hsplit : (assignmentText quoting o ++ '>' :: (signText x ++ (outputFile ++ brace)))
        ++ dropOptional (· == '\x7d') (beyond ++ (x.closing ++ (x.mark ++ rest)))
      = assignmentText quoting o
        ++ '>' :: (signText x ++ (outputFile ++ (beyond ++ (x.closing ++ (x.mark ++ rest))))) := by
    simp only [List.append_assoc, List.cons_append, htaken]
  rw [htaken] at hskip
  rw [← hsplit] at hread ⊢
  rw [outputsFrom_append_of_eq_some (by simp) hread, hskip]

end line

/-- The outputs that are written to a file, in a line in front of other lines. -/
theorem Line.IsRedirection.outputsFrom_append {l : Line} (h : l.IsRedirection) {rest : Text}
    (hrest : CanFollow rest) :
    (outputsFrom redirection? 0 (l.text ++ rest)).map Output.entry
      = l.taken?.toList.map Output.entry ++ (outputsFrom redirection? 0 rest).map Output.entry := by
  cases l with
  | redirected quoting o x =>
    obtain ⟨hsigns, hx, hassign⟩ := h
    rw [text, List.append_assoc, taken?]
    split
    · next hstarts =>
      obtain ⟨hname, hvalue⟩ := hassign hstarts
      rw [outputsFrom_redirection?_of_isPrefix hx hrest hname hvalue hstarts, List.map_cons,
        Output.entry_append_padding]
      rfl
    · next hno =>
      rw [outputsFrom_redirection?_redirectionText hx hrest hsigns hno]
      rfl
  | command o => exact h.elim
  | other text =>
    rw [Line.text, show text = [] from h]
    rfl

/-! ## All lines of a script -/

theorem exists_scriptText_cons (l : Line) (lines : List Line) :
    ∃ rest, scriptText (l :: lines) = l.text ++ rest := by
  cases lines with
  | nil => exact ⟨[], by rw [scriptText_singleton, List.append_nil]⟩
  | cons next lines => exact ⟨_, scriptText_cons_cons l next lines⟩

theorem assignment?_echoWord (t : Text) : assignment? (echoWord ++ ' ' :: t) = none := by
  have hparts : echoWord.all isNamePart = true := by decide +kernel
  have hequals : stripPrefix? ['='] (' ' :: t) = none := rfl
  rw [assignment?, dropWhile_append_cons (List.all_eq_true.mp hparts) (by decide), hequals,
    Option.map_none, ite_self]

/-- Behind a line of a script no assignment stands: the next line that is not empty begins with an
`echo`. -/
theorem canFollow_scriptText {lines : List Line} (h : ∀ l ∈ lines, l.IsRedirection) :
    CanFollow ('\n' :: scriptText lines) := by
  refine ⟨by rintro c ⟨⟩; rfl, ?_⟩
  rintro s ⟨⟩
  induction lines with
  | nil => rfl
  | cons l lines ih =>
    have hlines := ih fun l hl => h l (List.mem_cons_of_mem _ hl)
    have hl := h l List.mem_cons_self
    cases l with
    | redirected quoting o x =>
      obtain ⟨rest, hrest⟩ := exists_scriptText_cons (.redirected quoting o x) lines
      obtain ⟨t, ht⟩ : ∃ t, scriptText (.redirected quoting o x :: lines) = echoWord ++ ' ' :: t :=
        ⟨_, by rw [hrest, Line.text, redirectionText]; simp only [List.append_assoc]; rfl⟩
      have hhead : ∀ c ∈ (echoWord ++ ' ' :: t).head?, isBlank c = false ∧ isQuote c = false := by
        rintro c ⟨⟩
        decide
      rw [ht, dropWhile_eq_self_of_head? fun c hc => (hhead c hc).1,
        dropOptional_eq_self fun c hc => (hhead c hc).2, assignment?_echoWord]
    | command o => exact hl.elim
    | other text =>
      obtain rfl : text = [] := hl
      cases lines with
      | nil => rfl
      | cons next lines =>
        rw [scriptText_cons_cons, Line.text, List.nil_append,
          List.dropWhile_cons_of_pos (by decide)]
        exact hlines

/-- **A script whose lines write to files gives the outputs of the lines whose variables begin like
that of the file of outputs**, and so it gives none exactly if there are no such lines. -/
theorem scriptOutputs_redirections {lines : List Line} (h : ∀ l ∈ lines, l.IsRedirection)
    (hno : ¬ commandWord <:+: scriptText lines) :
    scriptOutputs (scriptText lines)
        = Dictionary.ofListFirst ((lines.filterMap Line.taken?).map Output.entry) ∧
      (scriptOutputs (scriptText lines) = Dictionary.empty ↔
        ∀ quoting o x, Line.redirected quoting o x ∈ lines → ¬ outputFile <+: x.name) := by
  have hredirected : (outputsFrom redirection? 0 (scriptText lines)).map Output.entry
      = (lines.filterMap Line.taken?).map Output.entry := by
    rw [eq_flatMap_of_forall_line (fun t => (outputsFrom redirection? 0 t).map Output.entry) rfl
      (fun t => congrArg _ (outputsFrom_redirection?_feed t))
      (fun l hl rest => hl.outputsFrom_append) ⟨by simp, by rintro s ⟨⟩⟩
      (fun lines => canFollow_scriptText) h,
      List.filterMap_eq_flatMap_toList, List.map_flatMap]
  have hcommand : outputsFrom setOutput? 0 (scriptText lines) = [] := by
    have hpass : outputsFrom setOutput? 0 (scriptText lines ++ []) = outputsFrom setOutput? 0 [] :=
      outputsFrom_append_of_no_key (fun _ => setOutput?_eq_none) hno (by simp)
    rwa [List.append_nil] at hpass
  have heq : scriptOutputs (scriptText lines)
      = Dictionary.ofListFirst ((lines.filterMap Line.taken?).map Output.entry) := by
    rw [← hredirected, scriptOutputs, hcommand, List.append_nil]
    rfl
  have htaken : (∀ l ∈ lines, l.taken? = none) ↔
      ∀ quoting o x, Line.redirected quoting o x ∈ lines → ¬ outputFile <+: x.name := by
    constructor
    · intro hnone quoting o x hl hstarts
      have hnot := hnone _ hl
      rw [Line.taken?, if_pos hstarts] at hnot
      cases hnot
    · intro hnot l hl
      cases l with
      | redirected quoting o x => rw [Line.taken?, if_neg (hnot quoting o x hl)]
      | command o => rfl
      | other text => rfl
  refine ⟨heq, ?_⟩
  rw [heq, Dictionary.ofListFirst_eq_empty_iff, List.map_eq_nil_iff, List.filterMap_eq_nil_iff,
    htaken]

/-- A script that writes to other files.  One name ends like that of the file of outputs, and one
value holds a command. -/
def otherFileLines : List Line :=
  [.redirected .double ⟨"a".toList, "1".toList⟩ ⟨"GITHUB_ENV".toList, false, false⟩,
   .redirected .double ⟨"b".toList, "echo c=2".toList⟩ ⟨"MY_GITHUB_OUTPUT".toList, true, false⟩,
   .redirected .double ⟨"d".toList, []⟩ ⟨"echo".toList, false, false⟩,
   .other []]

theorem scriptOutputs_otherFileLines :
    (∀ l ∈ otherFileLines, l.IsRedirection) ∧ ¬ commandWord <:+: scriptText otherFileLines ∧
      scriptOutputs (scriptText otherFileLines) = Dictionary.empty := by
  have hlines : ∀ l ∈ otherFileLines, l.IsRedirection := by decide +kernel
  have hno : ¬ commandWord <:+: scriptText otherFileLines := by decide +kernel
  exact ⟨hlines, hno, (scriptOutputs_redirections hlines hno).1.trans (by decide +kernel)⟩

/-- A script that writes to a file whose variable has a longer name than that of the file of
outputs. -/
def longerNameLines : List Line :=
  [.redirected .double ⟨"a".toList, "1".toList⟩ ⟨"GITHUB_OUTPUT_FILE".toList, false, false⟩,
   .other []]

/-- **A longer name is taken for that of the file of outputs.** -/
theorem scriptOutputs_longerNameLines :
    scriptText longerNameLines = "echo \x22a=1\x22 >> $GITHUB_OUTPUT_FILE\n".toList ∧
      (∀ l ∈ longerNameLines, l.IsRedirection) ∧
      (∀ quoting o x, Line.redirected quoting o x ∈ longerNameLines → x.name ≠ outputFile) ∧
      ¬ commandWord <:+: scriptText longerNameLines ∧
      (scriptOutputs (scriptText longerNameLines)).entries = [("a", "1")] := by
  refine ⟨by decide +kernel, by decide +kernel, ?_, by decide +kernel, by decide +kernel⟩
  intro quoting o x hl
  simp only [longerNameLines, List.mem_cons, Line.redirected.injEq, reduceCtorEq, List.not_mem_nil,
    or_false] at hl
  obtain ⟨-, -, rfl⟩ := hl
  decide +kernel

end WorkflowLens.Script
