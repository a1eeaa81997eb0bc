import Mathlib.Data.List.Infix
import WorkflowLens.Index.Script
import WorkflowLens.Proofs.Text.Occurrences
import WorkflowLens.Proofs.Text.Runs

/-!
# Commands that write outputs

A command is found where its key word stands, and read up to where it ends.  What was read is not
searched again, and a text is passed over as long as the key word does not stand in it; a character
that does not occur in the key word keeps it from going on behind the text.

A command is written here from its parts: an assignment with quotes or without, and a variable with
braces and quotes or without.  Where there are no quotes, the blank in front of the redirection
belongs to the value that is read, and it is only cut off when the output is listed.

* `redirectionText`, `setOutputText`: the two forms of a command.
* `outputsFrom_append_of_eq_some`, `outputsFrom_append_of_no_key`,
  `outputsFrom_append_of_not_mem`: one piece of a search.
* `redirection?_eq`, `setOutput?_eq`: the parts of a command that are read one after the other.
* `behindTarget?_append`: the name of the variable decides whether a command counts.
* `LacksAssignment`, `outputsFrom_redirection?_append_of_isNamePart`: a name is passed over, even if
  it ends with the key word.
* `redirection?_redirectionText`, `redirection?_eq_some`, `setOutput?_eq_some`: a command in its own
  form is read.
-/

namespace WorkflowLens.Script

open Text (dropWhile_append_cons dropWhile_append_of_head? dropWhile_eq_self_of_head? isBlank
  isLetter stripPrefix? stripPrefix?_eq_none_iff stripPrefix?_eq_some_iff takeWhile_append_cons
  takeWhile_append_of_head?)

/-! ## What a command is written from -/

/-- How an assignment is quoted. -/
inductive Quoting where
  | bare | single | double

/-- The quote on either side of an assignment. -/
def Quoting.mark : Quoting → Text
  | .bare => []
  | .single => ['\x27']
  | .double => ['\x22']

/-- A shell variable as it is written: with braces around its name or without, and with quotes
around all of it or without. -/
structure Variable where
  name : Text
  isBraced : Bool
  isQuoted : Bool

namespace Variable

/-- The quote on either side of a variable. -/
def mark (x : Variable) : Text := if x.isQuoted then ['\x22'] else []

/-- The brace in front of the name of a variable. -/
def opening (x : Variable) : Text := if x.isBraced then ['{'] else []

/-- The brace behind the name of a variable. -/
def closing (x : Variable) : Text := if x.isBraced then ['\x7d'] else []

/-- A variable up to the quote behind it. -/
def front (x : Variable) : Text := x.mark ++ '$' :: (x.opening ++ (x.name ++ x.closing))

theorem mark_subset (x : Variable) : x.mark ⊆ ['\x22', '$', '{', '\x7d'] := by
  rw [mark]
  split <;> decide

theorem opening_subset (x : Variable) : x.opening ⊆ ['\x22', '$', '{', '\x7d'] := by
  rw [opening]
  split <;> decide

theorem closing_subset (x : Variable) : x.closing ⊆ ['\x22', '$', '{', '\x7d'] := by
  rw [closing]
  split <;> decide

/-- A variable is written with a dollar sign, quotes and braces besides its name. -/
theorem mem_front {x : Variable} {c : Char} (hc : c ∈ x.front) :
    c ∈ x.name ∨ c ∈ ['\x22', '$', '{', '\x7d'] := by
  rw [front, List.mem_append, List.mem_cons, List.mem_append, List.mem_append] at hc
  rcases hc with hc | rfl | hc | hc | hc
  · exact .inr (x.mark_subset hc)
  · exact .inr (by decide)
  · exact .inr (x.opening_subset hc)
  · exact .inl hc
  · exact .inr (x.closing_subset hc)

end Variable

/-- The word that a command to write to a file begins with. -/
def echoWord : Text := "echo".toList

/-- The word that a command in the older form begins with. -/
def commandWord : Text := "::set-output".toList

/-- A command that writes an assignment to the file that a variable names, up to the quote behind
the variable. -/
def redirectionText (quoting : Quoting) (o : Output) (target : Variable) : Text :=
  echoWord ++ ' ' :: (quoting.mark ++ (o.name ++ '=' :: (o.value ++ (quoting.mark
    ++ ' ' :: '>' :: '>' :: ' ' :: target.front))))

/-- A command in the older form. -/
def setOutputText (o : Output) : Text :=
  commandWord ++ ' ' :: ("name=".toList ++ (o.name ++ ':' :: ':' :: o.value))

/-- The name of an output: letters, digits, underscores and hyphens, with a letter or an
underscore at the beginning. -/
structure IsOutputName (name : Text) : Prop where
  exists_head : ∃ c ∈ name.head?, isLetter c = true ∨ c = '_'
  forall_isNamePart : ∀ c ∈ name, isNamePart c = true

/-- A value that ends where it is written to end, and holds no command. -/
structure IsPlainValue (value : Text) : Prop where
  no_mark : ∀ c ∈ value, isQuote c = false ∧ c ≠ '>' ∧ c ≠ '\n'
  no_echo : ¬ echoWord <:+: value
  no_command : ¬ commandWord <:+: value

theorem isOutputName_iff {name : Text} : IsOutputName name ↔
    (name.head?.any fun c => isLetter c || c == '_') = true ∧ name.all isNamePart = true := by
  rw [Option.any_eq_true, List.all_eq_true]
  simp only [Bool.or_eq_true, beq_iff_eq]
  exact ⟨fun h => ⟨h.1, h.2⟩, fun h => ⟨h.1, h.2⟩⟩

theorem isPlainValue_iff {value : Text} : IsPlainValue value ↔
    (value.all fun c => !isQuote c && c != '>' && c != '\n') = true
      ∧ ¬ echoWord <:+: value ∧ ¬ commandWord <:+: value := by
  rw [List.all_eq_true]
  simp only [Bool.and_eq_true, Bool.not_eq_true', bne_iff_ne, and_assoc]
  exact ⟨fun h => ⟨h.1, h.2, h.3⟩, fun h => ⟨h.1, h.2.1, h.2.2⟩⟩

instance : DecidablePred IsOutputName := fun _ => decidable_of_iff _ isOutputName_iff.symm

instance : DecidablePred IsPlainValue := fun _ => decidable_of_iff _ isPlainValue_iff.symm

/-! ## The search -/

section search

variable {find? : Text → Option (Output × Text)} {u rest : Text}

theorem outputsFrom_append (u t : Text) :
    outputsFrom find? u.length (u ++ t) = outputsFrom find? 0 t := by
  induction u with
  | nil => rfl
  | cons c u ih =>
    rw [List.length_cons, List.cons_append, outputsFrom]
    exact ih

/-- A command is read, and the search goes on behind it. -/
theorem outputsFrom_append_of_eq_some {o : Output} (hu : u ≠ [])
    (h : find? (u ++ rest) = some (o, rest)) :
    outputsFrom find? 0 (u ++ rest) = o :: outputsFrom find? 0 rest := by
  obtain ⟨c, u, rfl⟩ := List.exists_cons_of_ne_nil hu
  rw [List.cons_append] at h
  have hskip : (u ++ rest).length - rest.length = u.length := by
    rw [List.length_append, Nat.add_sub_cancel]
  rw [List.cons_append, outputsFrom, h]
  dsimp only
  rw [hskip, outputsFrom_append]

variable {key : Text} (hkey : ∀ t, ¬ key <+: t → find? t = none)
include hkey

/-- A text without the key word is passed over, if the key word cannot go on behind it. -/
theorem outputsFrom_append_of_no_key (hu : ¬ key <:+: u) (hrest : ∀ c ∈ rest.head?, c ∉ key) :
    outputsFrom find? 0 (u ++ rest) = outputsFrom find? 0 rest := by
  induction u with
  | nil => rfl
  | cons c u ih =>
    have hno : ¬ key <+: c :: (u ++ rest) := fun hstarts =>
      hu (Text.isPrefix_of_isPrefix_append (s := c :: u) hrest hstarts).isInfix
    rw [List.cons_append, outputsFrom, hkey _ hno]
    exact ih fun hinfix => hu (List.infix_cons hinfix)

/-- A text without the key word is passed over together with a character behind it that does not
occur in the key word, whatever comes then. -/
theorem outputsFrom_append_cons (hne : key ≠ []) (hu : ¬ key <:+: u) {c : Char} (hc : c ∉ key)
    (rest : Text) : outputsFrom find? 0 (u ++ c :: rest) = outputsFrom find? 0 rest := by
  have hno : ¬ key <+: c :: rest := fun hstarts =>
    hne (List.prefix_nil.mp (Text.isPrefix_of_isPrefix_append_cons (s := []) hc hstarts))
  rw [outputsFrom_append_of_no_key hkey hu (by rintro d ⟨⟩; exact hc), outputsFrom, hkey _ hno]

/-- Characters with which the key word does not begin are passed over, whatever comes then. -/
theorem outputsFrom_append_of_not_mem {k : Char} (hk : key.head? = some k) (hu : k ∉ u)
    (rest : Text) : outputsFrom find? 0 (u ++ rest) = outputsFrom find? 0 rest := by
  obtain ⟨key, rfl⟩ := List.head?_eq_some_iff.mp hk
  induction u with
  | nil => rfl
  | cons c u ih =>
    have hno : ¬ k :: key <+: c :: (u ++ rest) := fun hstarts =>
      hu (List.mem_cons.mpr (.inl (List.cons_prefix_cons.mp hstarts).1))
    rw [List.cons_append, outputsFrom, hkey _ hno]
    exact ih fun hk => hu (List.mem_cons_of_mem c hk)

end search

/-! ## Characters of a command -/

/-- A character of a value that is written to a file. -/
def isValuePart (c : Char) : Bool := !(isQuote c || c == '\n' || c == '>')

/-- A character of a value that is written in the older form. -/
def isWrittenPart (c : Char) : Bool := !(isQuote c || c == '\n')

/-- The code points of all blanks. -/
def blankCodes : List Nat :=
  List.range' 9 5 ++ List.range' 0x2000 11
    ++ [0x20, 0x85, 0xA0, 0x1680, 0x2028, 0x2029, 0x202F, 0x205F, 0x3000]

theorem toNat_mem_blankCodes {c : Char} (h : isBlank c = true) : c.toNat ∈ blankCodes := by
  rw [isBlank] at h
  simp only [Bool.or_eq_true, Bool.and_eq_true, decide_eq_true_iff, beq_iff_eq] at h
  simp only [blankCodes, List.mem_append, List.mem_range'_1, List.mem_cons, List.not_mem_nil,
    or_false]
  omega

/-- No blank belongs to a name, so that a key word with a name behind it is no command. -/
theorem isNamePart_of_isBlank {c : Char} (h : isBlank c = true) : isNamePart c = false := by
  have hall : ∀ n ∈ blankCodes, isNamePart (Char.ofNat n) = false := by decide +kernel
  rw [← Char.ofNat_toNat c]
  exact hall _ (toNat_mem_blankCodes h)

theorem isBlank_of_isNamePart {c : Char} (h : isNamePart c = true) : isBlank c = false := by
  by_contra hblank
  rw [Bool.not_eq_false] at hblank
  rw [isNamePart_of_isBlank hblank] at h
  cases h

theorem isQuote_of_isNamePart {c : Char} (h : isNamePart c = true) : isQuote c = false := by
  by_contra hquote
  rw [Bool.not_eq_false, isQuote, Bool.or_eq_true, beq_iff_eq, beq_iff_eq] at hquote
  rcases hquote with rfl | rfl
  · exact absurd h (by decide)
  · exact absurd h (by decide)

theorem IsOutputName.head?_append {name : Text} (h : IsOutputName name) (t : Text) :
    ∀ c ∈ (name ++ t).head?, isNamePart c = true := by
  obtain ⟨d, hd, -⟩ := h.exists_head
  intro c hc
  rw [List.head?_append, hd, Option.some_or] at hc
  obtain rfl : d = c := Option.some.inj hc
  exact h.forall_isNamePart d (List.mem_of_mem_head? hd)

/-! ## The parts of a command -/

/-- The assignment at the beginning of a text, and the text behind it and its quote. -/
def assignment? (t : Text) : Option (Output × Text) :=
  if (t.takeWhile isNamePart).head?.any fun c => isLetter c || c == '_' then
    (stripPrefix? ['='] (t.dropWhile isNamePart)).map fun rest =>
      (⟨t.takeWhile isNamePart, rest.takeWhile isValuePart⟩,
        dropOptional isQuote (rest.dropWhile isValuePart))
  else none

/-- The text behind a redirection to the file of outputs. -/
def behindTarget? (t : Text) : Option Text :=
  (stripPrefix? ['>', '>'] (t.dropWhile isBlank)).bind fun t =>
    (stripPrefix? ['$'] (dropOptional isQuote (t.dropWhile isBlank))).bind fun t =>
      (stripPrefix? "GITHUB_OUTPUT".toList (dropOptional (· == '{') t)).map
        (dropOptional (· == '\x7d'))

/-- A command is its key word, blanks, an assignment that may be quoted, and a redirection. -/
theorem redirection?_eq (t : Text) :
    redirection? t = (stripPrefix? echoWord t).bind fun t => (dropBlanks? t).bind fun t =>
      (assignment? (dropOptional isQuote t)).bind fun (o, t) =>
        (behindTarget? t).map fun rest => (o, rest) := by
  rw [redirection?]
  simp only [Option.bind_eq_bind]
  refine Option.bind_congr fun t _ => Option.bind_congr fun t _ => ?_
  rw [assignment?]
  generalize dropOptional isQuote t = t
  cases (t.takeWhile isNamePart).head?.any fun c => isLetter c || c == '_' with
  | false => rfl
  | true =>
    cases stripPrefix? ['='] (t.dropWhile isNamePart) with
    | none => rfl
    | some rest =>
      rw [if_neg (by decide), if_pos rfl, Option.map_some, Option.bind_some, Option.bind_some,
        behindTarget?, Option.map_bind]
      refine Option.bind_congr fun t _ => ?_
      rw [Function.comp_apply, Option.map_bind]
      refine Option.bind_congr fun t _ => ?_
      rw [Function.comp_apply, Option.map_map, Option.map_eq_bind]
      rfl

/-- A name and its value in the older form, and the text behind them. -/
def namedValue? (t : Text) : Option (Output × Text) :=
  if (t.takeWhile isNamePart).isEmpty then none
  else (stripPrefix? [':', ':'] (t.dropWhile isNamePart)).map fun rest =>
    (⟨t.takeWhile isNamePart, rest.takeWhile isWrittenPart⟩, rest.dropWhile isWrittenPart)

/-- A command in the older form is its key word, blanks, and a name with its value. -/
theorem setOutput?_eq (t : Text) :
    setOutput? t = (stripPrefix? commandWord t).bind fun t => (dropBlanks? t).bind fun t =>
      (stripPrefix? "name=".toList t).bind namedValue? := by
  rw [setOutput?]
  simp only [Option.bind_eq_bind]
  refine Option.bind_congr fun t _ => Option.bind_congr fun t _ => Option.bind_congr fun t _ => ?_
  rw [namedValue?]
  cases (t.takeWhile isNamePart).isEmpty with
  | true => rfl
  | false =>
    rw [if_neg Bool.false_ne_true, if_neg Bool.false_ne_true, Option.map_eq_bind]
    rfl

theorem dropOptional_eq_self {p : Char → Bool} {t : Text} (h : ∀ c ∈ t.head?, p c = false) :
    dropOptional p t = t := by
  cases t with
  | nil => rfl
  | cons c t => rw [dropOptional, if_neg (ne_true_of_eq_false (h c rfl))]

theorem exists_append_dropOptional (p : Char → Bool) (t : Text) :
    ∃ u, u ++ dropOptional p t = t ∧ ∀ c ∈ u, p c = true := by
  cases t with
  | nil => exact ⟨[], rfl, by simp⟩
  | cons c t =>
    rw [dropOptional]
    split
    · next hc => exact ⟨[c], rfl, by simpa using hc⟩
    · exact ⟨[], rfl, by simp⟩

theorem stripPrefix?_append (needle t : Text) : stripPrefix? needle (needle ++ t) = some t :=
  stripPrefix?_eq_some_iff.mpr rfl

theorem dropBlanks?_eq_none {t : Text} (h : ∀ c ∈ t.head?, isBlank c = false) :
    dropBlanks? t = none := by
  cases t with
  | nil => rfl
  | cons c t => rw [dropBlanks?, if_neg (ne_true_of_eq_false (h c rfl))]

theorem assignment?_eq_none {t : Text} (h : ∀ c ∈ t.head?, isNamePart c = false) :
    assignment? t = none := by
  cases t with
  | nil => rfl
  | cons c t =>
    rw [assignment?, List.takeWhile_cons_of_neg (ne_true_of_eq_false (h c rfl))]
    rfl

theorem redirection?_eq_none {t : Text} (h : ¬ echoWord <+: t) : redirection? t = none := by
  rw [redirection?_eq, stripPrefix?_eq_none_iff.mpr h, Option.bind_none]

/-- Behind blanks stands no assignment, or there are no blanks. -/
def LacksAssignment (t : Text) : Prop :=
  ∀ s ∈ dropBlanks? t, assignment? (dropOptional isQuote s) = none

theorem lacksAssignment_of_head? {t : Text} (h : ∀ c ∈ t.head?, isBlank c = false) :
    LacksAssignment t := by
  rw [LacksAssignment, dropBlanks?_eq_none h]
  rintro s ⟨⟩

theorem redirection?_echoWord_append {t : Text} (h : LacksAssignment t) :
    redirection? (echoWord ++ t) = none := by
  rw [redirection?_eq, stripPrefix?_append, Option.bind_some, Option.bind_eq_none_iff]
  intro s hs
  rw [h s hs, Option.bind_none]

/-- No command begins in a name, if no assignment stands behind it. -/
theorem redirection?_append_of_isNamePart {s rest : Text} (hs : ∀ c ∈ s, isNamePart c = true)
    (hhead : ∀ c ∈ rest.head?, c ∉ echoWord) (hrest : LacksAssignment rest) :
    redirection? (s ++ rest) = none := by
  by_cases hstarts : echoWord <+: s ++ rest
  · obtain ⟨behind, rfl⟩ := Text.isPrefix_of_isPrefix_append hhead hstarts
    rw [List.append_assoc]
    refine redirection?_echoWord_append ?_
    cases behind with
    | nil => exact hrest
    | cons d behind =>
      -- the key word goes on as a longer name
      refine lacksAssignment_of_head? ?_
      rintro c ⟨⟩
      exact isBlank_of_isNamePart (hs d (List.mem_append_right _ List.mem_cons_self))
  · exact redirection?_eq_none hstarts

/-- A name is passed over, if no assignment stands behind it. -/
theorem outputsFrom_redirection?_append_of_isNamePart {s rest : Text}
    (hs : ∀ c ∈ s, isNamePart c = true) (hhead : ∀ c ∈ rest.head?, c ∉ echoWord)
    (hrest : LacksAssignment rest) :
    outputsFrom redirection? 0 (s ++ rest) = outputsFrom redirection? 0 rest := by
  induction s with
  | nil => rfl
  | cons c s ih =>
    have hno := redirection?_append_of_isNamePart hs hhead hrest
    rw [List.cons_append] at hno ⊢
    rw [outputsFrom, hno]
    exact ih fun d hd => hs d (List.mem_cons_of_mem c hd)

theorem setOutput?_eq_none {t : Text} (h : ¬ commandWord <+: t) : setOutput? t = none := by
  rw [setOutput?_eq, stripPrefix?_eq_none_iff.mpr h, Option.bind_none]

/-! ## Commands in their own forms -/

namespace Quoting

/-- The blank in front of a redirection, which belongs to a value that has no quotes. -/
def padding : Quoting → Text
  | .bare => [' ']
  | .single | .double => []

/-- The blank in front of a redirection, where a quote comes before it. -/
def gap : Quoting → Text
  | .bare => []
  | .single | .double => [' ']

theorem mark_append_blank (quoting : Quoting) (rest : Text) :
    quoting.mark ++ ' ' :: rest = quoting.padding ++ (quoting.mark ++ (quoting.gap ++ rest)) := by
  cases quoting <;> rfl

theorem eq_of_mem_padding {quoting : Quoting} {c : Char} (hc : c ∈ quoting.padding) : c = ' ' := by
  cases quoting with
  | bare => exact List.mem_singleton.mp hc
  | single | double => cases hc

theorem eq_of_mem_gap {quoting : Quoting} {c : Char} (hc : c ∈ quoting.gap) : c = ' ' := by
  cases quoting with
  | bare => cases hc
  | single | double => exact List.mem_singleton.mp hc

theorem isBlank_of_mem_padding {quoting : Quoting} : ∀ c ∈ quoting.padding, isBlank c = true := by
  intro c hc
  rw [eq_of_mem_padding hc]
  rfl

theorem isBlank_of_mem_gap {quoting : Quoting} : ∀ c ∈ quoting.gap, isBlank c = true := by
  intro c hc
  rw [eq_of_mem_gap hc]
  rfl

end Quoting

theorem IsPlainValue.isValuePart {value : Text} (h : IsPlainValue value) :
    ∀ c ∈ value, isValuePart c = true := by
  intro c hc
  obtain ⟨hquote, hgreater, hfeed⟩ := h.no_mark c hc
  rw [Script.isValuePart, hquote, beq_false_of_ne hgreater, beq_false_of_ne hfeed]
  rfl

theorem IsPlainValue.isWrittenPart {value : Text} (h : IsPlainValue value) :
    ∀ c ∈ value, isWrittenPart c = true := by
  intro c hc
  obtain ⟨hquote, -, hfeed⟩ := h.no_mark c hc
  rw [Script.isWrittenPart, hquote, beq_false_of_ne hfeed]
  rfl

theorem IsOutputName.isEmpty {name : Text} (h : IsOutputName name) : name.isEmpty = false := by
  obtain ⟨c, hc, -⟩ := h.exists_head
  obtain ⟨rest, rfl⟩ := List.head?_eq_some_iff.mp hc
  rfl

/-- An assignment is read up to its quote, or up to the redirection. -/
theorem assignment?_append {o : Output} (hname : IsOutputName o.name)
    (hvalue : ∀ c ∈ o.value, isValuePart c = true) (quoting : Quoting) (rest : Text) :
    assignment? (o.name ++ '=' :: (o.value ++ (quoting.mark ++ ' ' :: '>' :: rest)))
      = some (⟨o.name, o.value ++ quoting.padding⟩, quoting.gap ++ '>' :: rest) := by
  have hrun : ∀ c ∈ o.value ++ quoting.padding, isValuePart c = true := by
    intro c hc
    rcases List.mem_append.mp hc with hc | hc
    · exact hvalue c hc
    · rw [Quoting.eq_of_mem_padding hc]
      rfl
  have hend : ∀ c ∈ (quoting.mark ++ (quoting.gap ++ '>' :: rest)).head?,
      isValuePart c = false := by
    cases quoting <;> rintro c ⟨⟩ <;> decide
  have hequals : ∀ t : Text, stripPrefix? ['='] ('=' :: t) = some t := stripPrefix?_append ['=']
  rw [assignment?, takeWhile_append_cons hname.forall_isNamePart (by decide),
    dropWhile_append_cons hname.forall_isNamePart (by decide),
    if_pos (isOutputName_iff.mp hname).1, hequals, Option.map_some, quoting.mark_append_blank,
    ← List.append_assoc, takeWhile_append_of_head? hrun hend, dropWhile_append_of_head? hrun hend]
  cases quoting <;> rfl

namespace Variable

variable {x : Variable}

theorem dropOptional_mark (t : Text) : dropOptional isQuote (x.mark ++ '$' :: t) = '$' :: t := by
  rw [mark]
  split <;> rfl

theorem dropOptional_opening {c : Char} (hc : x.name.head? = some c) (hbrace : c ≠ '{') (t : Text) :
    dropOptional (· == '{') (x.opening ++ (x.name ++ t)) = x.name ++ t := by
  rw [opening]
  split
  · rfl
  · refine dropOptional_eq_self fun d hd => ?_
    rw [List.nil_append, List.head?_append, hc] at hd
    obtain rfl : c = d := Option.some.inj hd
    exact beq_false_of_ne hbrace

theorem dropOptional_closing {rest : Text} (hrest : ∀ c ∈ rest.head?, c ≠ '\x7d') :
    dropOptional (· == '\x7d') (x.closing ++ rest) = rest := by
  rw [closing]
  split
  · rfl
  · exact dropOptional_eq_self fun c hc => beq_false_of_ne (hrest c hc)

end Variable

/-- Behind the sign of a redirection the name of the variable decides. -/
theorem behindTarget?_append {x : Variable} {c : Char} (hc : x.name.head? = some c)
    (hbrace : c ≠ '{') {gap : Text} (hgap : ∀ c ∈ gap, isBlank c = true) (rest : Text) :
    behindTarget? (gap ++ '>' :: '>' :: ' ' :: (x.front ++ rest))
      = (stripPrefix? "GITHUB_OUTPUT".toList (x.name ++ (x.closing ++ rest))).map
          (dropOptional (· == '\x7d')) := by
  have hfront : ∀ c ∈ (x.front ++ rest).head?, isBlank c = false := by
    rw [Variable.front, Variable.mark]
    split <;> rintro c ⟨⟩ <;> decide
  have hblank : (' ' :: (x.front ++ rest)).dropWhile isBlank = x.front ++ rest := by
    rw [List.dropWhile_cons_of_pos (by decide), dropWhile_eq_self_of_head? hfront]
  have hsign : ∀ t : Text, stripPrefix? ['>', '>'] ('>' :: '>' :: t) = some t :=
    stripPrefix?_append ['>', '>']
  have hdollar : ∀ t : Text, stripPrefix? ['$'] ('$' :: t) = some t := stripPrefix?_append ['$']
  rw [behindTarget?, dropWhile_append_cons hgap (by decide), hsign, Option.bind_some, hblank,
    Variable.front, List.append_assoc, List.cons_append, Variable.dropOptional_mark, hdollar,
    Option.bind_some, List.append_assoc, List.append_assoc,
    Variable.dropOptional_opening hc hbrace]

namespace Quoting

variable {quoting : Quoting} {t : Text}

theorem dropBlanks?_mark (ht : ∀ c ∈ t.head?, isBlank c = false) :
    dropBlanks? (' ' :: (quoting.mark ++ t)) = some (quoting.mark ++ t) := by
  have hhead : ∀ c ∈ (quoting.mark ++ t).head?, isBlank c = false := by
    cases quoting with
    | bare => exact ht
    | single | double =>
      rintro c ⟨⟩
      decide
  rw [dropBlanks?, if_pos (by decide), dropWhile_eq_self_of_head? hhead]

theorem dropOptional_mark (ht : ∀ c ∈ t.head?, isQuote c = false) :
    dropOptional isQuote (quoting.mark ++ t) = t := by
  cases quoting with
  | bare => exact dropOptional_eq_self ht
  | single | double => rfl

end Quoting

/-- A command in its own form is read, if the variable has the right name. -/
theorem redirection?_redirectionText {o : Output} (hname : IsOutputName o.name)
    (hvalue : ∀ c ∈ o.value, isValuePart c = true) {target : Variable} {c : Char}
    (hc : target.name.head? = some c) (hbrace : c ≠ '{') (quoting : Quoting) (rest : Text) :
    redirection? (redirectionText quoting o target ++ rest)
      = (stripPrefix? "GITHUB_OUTPUT".toList (target.name ++ (target.closing ++ rest))).map
          fun t => (⟨o.name, o.value ++ quoting.padding⟩, dropOptional (· == '\x7d') t) := by
  simp only [redirectionText, List.append_assoc, List.cons_append]
  rw [redirection?_eq, stripPrefix?_append, Option.bind_some,
    Quoting.dropBlanks?_mark fun c hc => isBlank_of_isNamePart (hname.head?_append _ c hc),
    Option.bind_some,
    Quoting.dropOptional_mark fun c hc => isQuote_of_isNamePart (hname.head?_append _ c hc),
    assignment?_append hname hvalue, Option.bind_some]
  dsimp only
  rw [behindTarget?_append hc hbrace Quoting.isBlank_of_mem_gap, Option.map_map]
  rfl

/-- A command in its own form is read, up to the quote behind the variable. -/
theorem redirection?_eq_some {o : Output} (hname : IsOutputName o.name)
    (hvalue : ∀ c ∈ o.value, isValuePart c = true) {target : Variable}
    (htarget : target.name = "GITHUB_OUTPUT".toList) (quoting : Quoting) {rest : Text}
    (hrest : ∀ c ∈ rest.head?, c ≠ '\x7d') :
    redirection? (redirectionText quoting o target ++ rest)
      = some (⟨o.name, o.value ++ quoting.padding⟩, rest) := by
  have hc : target.name.head? = some 'G' := by
    rw [htarget]
    rfl
  rw [redirection?_redirectionText hname hvalue hc (by decide), htarget, stripPrefix?_append,
    Option.map_some, Variable.dropOptional_closing hrest]

theorem namedValue?_append {o : Output} (hname : IsOutputName o.name)
    (hvalue : IsPlainValue o.value) (rest : Text) :
    namedValue? (o.name ++ ':' :: ':' :: (o.value ++ '\x22' :: rest))
      = some (o, '\x22' :: rest) := by
  have hcolons : ∀ t : Text, stripPrefix? [':', ':'] (':' :: ':' :: t) = some t :=
    stripPrefix?_append [':', ':']
  rw [namedValue?, takeWhile_append_cons hname.forall_isNamePart (by decide),
    dropWhile_append_cons hname.forall_isNamePart (by decide), hcolons, Option.map_some,
    takeWhile_append_cons hvalue.isWrittenPart (by decide),
    dropWhile_append_cons hvalue.isWrittenPart (by decide),
    if_neg (ne_true_of_eq_false hname.isEmpty)]

/-- A command in the older form is read, up to the quote behind it. -/
theorem setOutput?_eq_some {o : Output} (hname : IsOutputName o.name)
    (hvalue : IsPlainValue o.value) (rest : Text) :
    setOutput? (setOutputText o ++ '\x22' :: rest) = some (o, '\x22' :: rest) := by
  have hblank : ∀ t : Text,
      dropBlanks? (' ' :: ("name=".toList ++ t)) = some ("name=".toList ++ t) := fun _ => rfl
  simp only [setOutputText, List.append_assoc, List.cons_append]
  rw [setOutput?_eq, stripPrefix?_append, Option.bind_some, hblank, Option.bind_some,
    stripPrefix?_append, Option.bind_some, namedValue?_append hname hvalue]

end WorkflowLens.Script
