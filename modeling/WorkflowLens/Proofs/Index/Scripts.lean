import WorkflowLens.Proofs.Index.Collect
import WorkflowLens.Proofs.Index.Commands

/-!
# Scripts that write outputs

A script is searched twice, for either form of a command.  Blanks in a command may be line feeds,
so a command could begin on one line and end on another, and what belongs to one command is not
searched again, so a command could hide the next one.

Neither happens if every line that has one of the two key words is written in a known form.  A
command begins with its key word, and a key word that is found in a line stands at the beginning of
the line's own command: what stands before and behind it has no key word, and no key word goes over
the end of a line.  The one exception is an `echo` that prints a command in the older form, and the
`echo` that may stand in a name; there the search begins to read and finds no assignment.  So every
line gives its own output whatever comes behind it, and this goes on from line to line.

* `Line`: what a line can be, and its text; `Line.IsKnown`: when it is written in a known form.
* `outputsFrom_redirection?_setOutputText`, `outputsFrom_setOutput?_redirectionText`: a command in
  one form is passed over by the search for the other.
* `Line.IsKnown.outputsFrom_redirection?`, `Line.IsKnown.outputsFrom_setOutput?`: a line in front of
  other lines.
* `scriptOutputs_scriptText`: the outputs of a script.
-/

namespace WorkflowLens.Script

open Text (isBlank isLetter trim)

/-! ## The lines of a script -/

/-- A line of a script. -/
inductive Line where
  /-- An assignment is written to the file that a variable names. -/
  | redirected (quoting : Quoting) (o : Output) (target : Variable)
  /-- An output is written in the older form. -/
  | command (o : Output)
  | other (text : Text)

namespace Line

/-- The text of a line. -/
def text : Line → Text
  | redirected quoting o target => redirectionText quoting o target ++ target.mark
  | command o => echoWord ++ ' ' :: '\x22' :: (setOutputText o ++ ['\x22'])
  | other text => text

example : (redirected .double ⟨"tag".toList, "v1".toList⟩
      ⟨"GITHUB_OUTPUT".toList, true, false⟩).text
    = "echo \x22tag=v1\x22 >> $\x7bGITHUB_OUTPUT\x7d".toList := by decide +kernel

/-- The output of a line that is written to a file. -/
def redirected? : Line → Option Output
  | redirected _ o _ => some o
  | _ => none

/-- The output of a line that is written in the older form. -/
def command? : Line → Option Output
  | command o => some o
  | _ => none

end Line

/-- The text of a script, with a line feed between two lines. -/
def scriptText (lines : List Line) : Text := ['\n'].intercalate (lines.map Line.text)

/-- The outputs that the lines of a script write, those in the older form behind the others. -/
def written (lines : List Line) : List Output :=
  lines.filterMap Line.redirected? ++ lines.filterMap Line.command?

/-- An output as it is listed: its name, and its value without blanks around. -/
def Output.entry (o : Output) : String × String :=
  (String.ofList o.name, String.ofList (trim o.value))

/-- A line is written in a known form, or has none of the key words. -/
def Line.IsKnown : Line → Prop
  | redirected _ o target =>
    IsOutputName o.name ∧ IsPlainValue o.value ∧ target.name = "GITHUB_OUTPUT".toList
  | command o => IsOutputName o.name ∧ IsPlainValue o.value
  | other text => ¬ echoWord <:+: text ∧ ¬ commandWord <:+: text

instance : DecidablePred Line.IsKnown
  | .redirected _ _ _ => inferInstanceAs (Decidable (_ ∧ _ ∧ _))
  | .command _ => inferInstanceAs (Decidable (_ ∧ _))
  | .other _ => inferInstanceAs (Decidable (_ ∧ _))

/-! ## A line in front of other lines -/

theorem outputsFrom_redirection?_append_cons {u : Text} (hu : ¬ echoWord <:+: u) {c : Char}
    (hc : c ∉ echoWord) (rest : Text) :
    outputsFrom redirection? 0 (u ++ c :: rest) = outputsFrom redirection? 0 rest :=
  outputsFrom_append_cons (fun _ => redirection?_eq_none) (by decide +kernel) hu hc rest

theorem outputsFrom_redirection?_feed (rest : Text) :
    outputsFrom redirection? 0 ('\n' :: rest) = outputsFrom redirection? 0 rest :=
  outputsFrom_redirection?_append_cons (u := []) (by decide +kernel) (by decide +kernel) rest

theorem outputsFrom_setOutput?_append {u : Text} (hu : ':' ∉ u) (rest : Text) :
    outputsFrom setOutput? 0 (u ++ rest) = outputsFrom setOutput? 0 rest :=
  outputsFrom_append_of_not_mem (fun _ => setOutput?_eq_none) (by decide +kernel) hu rest

/-- Where an `echo` prints a command in the older form, nothing is written to a file. -/
theorem lacksAssignment_setOutputText (o : Output) (rest : Text) :
    LacksAssignment (' ' :: '\x22' :: (setOutputText o ++ rest)) := by
  rintro s ⟨⟩
  refine assignment?_eq_none ?_
  rintro c ⟨⟩
  decide

/-- A command in the older form is passed over by the search for the other form. -/
theorem outputsFrom_redirection?_setOutputText {o : Output} (hname : IsOutputName o.name)
    (hvalue : IsPlainValue o.value) (rest : Text) :
    outputsFrom redirection? 0 (echoWord ++ ' ' :: '\x22' :: (setOutputText o ++ '\x22' :: rest))
      = outputsFrom redirection? 0 rest := by
  have hfirst := redirection?_echoWord_append (lacksAssignment_setOutputText o ('\x22' :: rest))
  have hwords : echoWord ++ ' ' :: '\x22' :: (setOutputText o ++ '\x22' :: rest)
      = 'e' :: ((['c', 'h', 'o', ' ', '\x22'] ++ commandWord ++ ' ' :: "name".toList)
        ++ '=' :: (o.name ++ ([':'] ++ ':' :: (o.value ++ '\x22' :: rest)))) := by
    have hequals : "name=".toList = "name".toList ++ ['='] := by decide +kernel
    have hecho : echoWord = ['e', 'c', 'h', 'o'] := by decide +kernel
    simp only [setOutputText, hequals, hecho, List.append_assoc, List.cons_append, List.nil_append]
  have hcolon : ∀ c ∈ ([':'] ++ ':' :: (o.value ++ '\x22' :: rest)).head?, c ∉ echoWord := by
    rintro c ⟨⟩
    decide +kernel
  have hblank : ∀ c ∈ ([':'] ++ ':' :: (o.value ++ '\x22' :: rest)).head?, isBlank c = false := by
    rintro c ⟨⟩
    decide
  rw [hwords] at hfirst ⊢
  rw [outputsFrom, hfirst]
  dsimp only
  -- the other key words can only stand in the name and in the value
  rw [outputsFrom_redirection?_append_cons (by decide +kernel) (by decide +kernel),
    outputsFrom_redirection?_append_of_isNamePart hname.forall_isNamePart hcolon
      (lacksAssignment_of_head? hblank),
    outputsFrom_redirection?_append_cons (by decide +kernel) (by decide +kernel),
    outputsFrom_redirection?_append_cons hvalue.no_echo (by decide +kernel)]

/-- A command to write to a file is passed over by the search for the older form. -/
theorem outputsFrom_setOutput?_redirectionText {o : Output} (hname : IsOutputName o.name)
    (hvalue : IsPlainValue o.value) {target : Variable} (htarget : ':' ∉ target.name)
    (quoting : Quoting) (rest : Text) :
    outputsFrom setOutput? 0 (redirectionText quoting o target ++ rest)
      = outputsFrom setOutput? 0 rest := by
  -- the key word begins with a colon, and only the value can have one
  have hmark : ':' ∉ quoting.mark := by cases quoting <;> decide
  have hfront : ':' ∉ target.front := fun hc =>
    (Variable.mem_front hc).elim htarget fun hsign => absurd hsign (by decide)
  have hassign : ':' ∉ echoWord ++ ' ' :: (quoting.mark ++ (o.name ++ ['='])) := by
    have hecho : ':' ∉ echoWord := by decide +kernel
    have hparts : ':' ∉ o.name := fun hc => absurd (hname.forall_isNamePart _ hc) (by decide)
    simpa using ⟨hecho, hmark, hparts⟩
  have hbehind : ':' ∉ quoting.mark ++ ' ' :: '>' :: '>' :: ' ' :: target.front := by
    simpa using ⟨hmark, hfront⟩
  have hhead : ∀ c ∈ (quoting.mark ++ ' ' :: '>' :: '>' :: ' ' :: (target.front ++ rest)).head?,
      c ∉ commandWord := by
    cases quoting <;> rintro c ⟨⟩ <;> decide
  have hsplit : redirectionText quoting o target ++ rest
      = (echoWord ++ ' ' :: (quoting.mark ++ (o.name ++ ['=']))) ++ (o.value ++ (quoting.mark
        ++ ' ' :: '>' :: '>' :: ' ' :: (target.front ++ rest))) := by
    simp [redirectionText]
  rw [hsplit, outputsFrom_setOutput?_append hassign,
    outputsFrom_append_of_no_key (fun _ => setOutput?_eq_none) hvalue.no_command hhead,
    ← outputsFrom_setOutput?_append hbehind rest]
  simp

theorem Output.entry_append_padding (o : Output) (quoting : Quoting) :
    entry ⟨o.name, o.value ++ quoting.padding⟩ = o.entry := by
  rw [entry, entry, Text.trim_append_of_forall Quoting.isBlank_of_mem_padding]

/-- The outputs that are written to a file, in a line in front of other lines. -/
theorem Line.IsKnown.outputsFrom_redirection? {l : Line} (h : l.IsKnown) {rest : Text}
    (hrest : ∀ c ∈ rest.head?, c = '\n') :
    (outputsFrom redirection? 0 (l.text ++ rest)).map Output.entry
      = l.redirected?.toList.map Output.entry
        ++ (outputsFrom redirection? 0 rest).map Output.entry := by
  cases l with
  | redirected quoting o target =>
    obtain ⟨hname, hvalue, htarget⟩ := h
    have hend : ∀ c ∈ (target.mark ++ rest).head?, c ≠ '\x7d' := by
      rw [Variable.mark]
      split
      · rintro c ⟨⟩
        decide
      · intro c hc
        rw [hrest c hc]
        decide
    have hmark : 'e' ∉ target.mark := by
      rw [Variable.mark]
      split <;> decide
    have hread := redirection?_eq_some hname hvalue.isValuePart htarget quoting hend
    have hne : redirectionText quoting o target ≠ [] :=
      List.append_ne_nil_of_left_ne_nil (by decide) _
    -- what is left of the line is the quote behind the variable
    rw [text, List.append_assoc, outputsFrom_append_of_eq_some hne hread,
      outputsFrom_append_of_not_mem (fun _ => redirection?_eq_none) (by decide +kernel) hmark,
      List.map_cons, Output.entry_append_padding]
    rfl
  | command o =>
    rw [text, List.append_assoc, List.cons_append, List.cons_append, List.append_assoc,
      List.singleton_append, outputsFrom_redirection?_setOutputText h.1 h.2]
    rfl
  | other text =>
    have hfeed : ∀ c ∈ rest.head?, c ∉ echoWord := by
      intro c hc
      rw [hrest c hc]
      decide +kernel
    rw [Line.text, outputsFrom_append_of_no_key (fun _ => redirection?_eq_none) h.1 hfeed]
    rfl

/-- The outputs in the older form, in a line in front of other lines. -/
theorem Line.IsKnown.outputsFrom_setOutput? {l : Line} (h : l.IsKnown) {rest : Text}
    (hrest : ∀ c ∈ rest.head?, c = '\n') :
    outputsFrom setOutput? 0 (l.text ++ rest)
      = l.command?.toList ++ outputsFrom setOutput? 0 rest := by
  cases l with
  | redirected quoting o target =>
    obtain ⟨hname, hvalue, htarget⟩ := h
    have hcolon : ':' ∉ target.name := by
      rw [htarget]
      decide +kernel
    have hmark : ':' ∉ target.mark := by
      rw [Variable.mark]
      split <;> decide
    rw [text, List.append_assoc, outputsFrom_setOutput?_redirectionText hname hvalue hcolon,
      outputsFrom_setOutput?_append hmark]
    rfl
  | command o =>
    have hread := setOutput?_eq_some h.1 h.2 rest
    have hne : setOutputText o ≠ [] := List.append_ne_nil_of_left_ne_nil (by decide) _
    have hpass : ∀ t : Text, outputsFrom setOutput? 0 ((echoWord ++ [' ', '\x22']) ++ t)
        = outputsFrom setOutput? 0 t := outputsFrom_setOutput?_append (by decide)
    have hquote : outputsFrom setOutput? 0 ('\x22' :: rest) = outputsFrom setOutput? 0 rest :=
      outputsFrom_setOutput?_append (u := ['\x22']) (by decide) rest
    have hsplit : (command o).text ++ rest
        = (echoWord ++ [' ', '\x22']) ++ (setOutputText o ++ '\x22' :: rest) := by
      simp only [text, List.append_assoc, List.cons_append, List.nil_append]
    rw [hsplit, hpass, outputsFrom_append_of_eq_some hne hread, hquote]
    rfl
  | other text =>
    have hfeed : ∀ c ∈ rest.head?, c ∉ commandWord := by
      intro c hc
      rw [hrest c hc]
      decide +kernel
    rw [Line.text, outputsFrom_append_of_no_key (fun _ => setOutput?_eq_none) h.2 hfeed]
    rfl

/-! ## All lines of a script -/

theorem scriptText_nil : scriptText [] = [] := rfl

theorem scriptText_singleton (l : Line) : scriptText [l] = l.text :=
  List.intercalate_singleton

theorem scriptText_cons_cons (l next : Line) (lines : List Line) :
    scriptText (l :: next :: lines) = l.text ++ '\n' :: scriptText (next :: lines) := by
  rw [scriptText, List.map_cons, List.map_cons, List.intercalate_cons_cons, List.append_assoc]
  rfl

/-- A search that takes one line after another collects what it finds in the lines, if it may
depend on what stands behind a line. -/
theorem eq_flatMap_of_forall_line {α : Type} (search : Text → List α) {found : Line → List α}
    {IsGood : Line → Prop} {CanFollow : Text → Prop} (hnil : search [] = [])
    (hfeed : ∀ t, search ('\n' :: t) = search t)
    (hline : ∀ l : Line, IsGood l → ∀ rest : Text, CanFollow rest →
      search (l.text ++ rest) = found l ++ search rest)
    (hend : CanFollow [])
    (hnext : ∀ lines : List Line, (∀ l ∈ lines, IsGood l) → CanFollow ('\n' :: scriptText lines))
    {lines : List Line} (h : ∀ l ∈ lines, IsGood l) :
    search (scriptText lines) = lines.flatMap found := by
  -- behind the last line stands nothing, and behind the others a line feed
  induction lines with
  | nil => exact hnil
  | cons l lines ih =>
    have hlines : ∀ l ∈ lines, IsGood l := fun l hl => h l (List.mem_cons_of_mem _ hl)
    have hrest := ih hlines
    have hl := hline l (h l List.mem_cons_self)
    rw [List.flatMap_cons, ← hrest]
    cases lines with
    | nil => rw [scriptText_singleton, scriptText_nil, ← hl [] hend, List.append_nil]
    | cons next lines => rw [scriptText_cons_cons, hl _ (hnext _ hlines), hfeed]

/-- The outputs that the lines of a script write, as they are listed. -/
theorem scriptOutputs_eq {lines : List Line} (h : ∀ l ∈ lines, l.IsKnown) :
    scriptOutputs (scriptText lines)
      = Dictionary.ofListFirst ((written lines).map Output.entry) := by
  have hend : ∀ c ∈ ([] : Text).head?, c = '\n' := by simp
  have hnext : ∀ lines : List Line, (∀ l ∈ lines, l.IsKnown) →
      ∀ c ∈ ('\n' :: scriptText lines).head?, c = '\n' := by
    rintro lines - c ⟨⟩
    rfl
  have hredirected : (outputsFrom redirection? 0 (scriptText lines)).map Output.entry
      = (lines.filterMap Line.redirected?).map Output.entry := by
    rw [eq_flatMap_of_forall_line (fun t => (outputsFrom redirection? 0 t).map Output.entry) rfl
      (fun t => congrArg _ (outputsFrom_redirection?_feed t))
      (fun l hl rest => hl.outputsFrom_redirection?) hend hnext h,
      List.filterMap_eq_flatMap_toList, List.map_flatMap]
  have hcommand : outputsFrom setOutput? 0 (scriptText lines) = lines.filterMap Line.command? := by
    have hfeed : ∀ t : Text, outputsFrom setOutput? 0 ('\n' :: t) = outputsFrom setOutput? 0 t :=
      outputsFrom_setOutput?_append (u := ['\n']) (by decide)
    rw [eq_flatMap_of_forall_line (outputsFrom setOutput? 0) rfl hfeed
      (fun l hl rest => hl.outputsFrom_setOutput?) hend hnext h,
      List.filterMap_eq_flatMap_toList]
  rw [written, List.map_append, ← hredirected, ← hcommand, ← List.map_append]
  rfl

/-- **The outputs of a script whose lines are written in a known form are those that its lines
write**, first those that are written to the file and then those in the older form.  Each stands
where its name came first, with the value that was written to it there, without blanks around. -/
theorem scriptOutputs_scriptText {lines : List Line} (h : ∀ l ∈ lines, l.IsKnown) :
    (scriptOutputs (scriptText lines)).names
        = ((written lines).map fun o => String.ofList o.name).eraseDups
      ∧ ∀ name, (scriptOutputs (scriptText lines)).get? name
        = ((written lines).map Output.entry).lookup name := by
  rw [scriptOutputs_eq h, Dictionary.names_ofListFirst, List.map_map]
  exact ⟨rfl, Dictionary.get?_ofListFirst _⟩

/-- A script that writes an output twice, once with blanks around its value. -/
def releaseLines : List Line :=
  [.command ⟨"path".toList, "bin".toList⟩,
   .redirected .double ⟨"tag".toList, " v1.2 ".toList⟩ ⟨"GITHUB_OUTPUT".toList, false, false⟩,
   .other "make all".toList,
   .redirected .bare ⟨"tag".toList, "v2".toList⟩ ⟨"GITHUB_OUTPUT".toList, true, true⟩,
   .redirected .single ⟨"_set-up".toList, []⟩ ⟨"GITHUB_OUTPUT".toList, true, false⟩]

theorem scriptOutputs_releaseLines :
    (∀ l ∈ releaseLines, l.IsKnown)
      ∧ (scriptOutputs (scriptText releaseLines)).names = ["tag", "_set-up", "path"]
      ∧ (scriptOutputs (scriptText releaseLines)).get? "tag" = some "v1.2" := by
  have hknown : ∀ l ∈ releaseLines, l.IsKnown := by decide +kernel
  obtain ⟨hnames, htexts⟩ := scriptOutputs_scriptText hknown
  exact ⟨hknown, hnames.trans (by decide +kernel), (htexts "tag").trans (by decide +kernel)⟩

end WorkflowLens.Script
