import WorkflowLens.Dictionary
import WorkflowLens.Text.Blank
import WorkflowLens.Text.Identifier
import WorkflowLens.Text.Search

/-!
# Outputs that a script writes

A script writes an output by `echo name=value >> $GITHUB_OUTPUT`, with or without quotes, or in
the older way by `::set-output name=name::value`.

* `redirection?`, `setOutput?`: the output written by the command at the beginning of a text, and
  the text after the command.
* `scriptOutputs`: all outputs of a script, first those of the first form, then those of the
  second.
-/

namespace WorkflowLens.Script

/-- An output and the text written to it. -/
structure Output where
  name : Text
  value : Text
  deriving DecidableEq, Repr

/-- A single or double quote. -/
def isQuote (c : Char) : Bool := c == '\x22' || c == '\x27'

/-- A character of an output's name. -/
def isNamePart (c : Char) : Bool := Text.isScriptWord c || c == '-'

/-- The text after blanks, of which there must be one. -/
def dropBlanks? (t : Text) : Option Text :=
  match t with
  | c :: rest => if Text.isBlank c then some (rest.dropWhile Text.isBlank) else none
  | [] => none

/-- The text after a first character that satisfies `p`, or all of it. -/
def dropOptional (p : Char → Bool) (t : Text) : Text :=
  match t with
  | c :: rest => if p c then rest else t
  | [] => []

/-- The output written by an `echo` at the beginning of a text into the file of outputs. -/
def redirection? (t : Text) : Option (Output × Text) := do
  let t ← Text.stripPrefix? "echo".toList t
  let t := dropOptional isQuote (← dropBlanks? t)
  let name := t.takeWhile isNamePart
  if !name.head?.any fun c => Text.isLetter c || c == '_' then none
  let t ← Text.stripPrefix? ['='] (t.dropWhile isNamePart)
  let inValue (c : Char) : Bool := !(isQuote c || c == '\n' || c == '>')
  let value := t.takeWhile inValue
  let t := (dropOptional isQuote (t.dropWhile inValue)).dropWhile Text.isBlank
  let t ← Text.stripPrefix? ['>', '>'] t
  let t ← Text.stripPrefix? ['$'] (dropOptional isQuote (t.dropWhile Text.isBlank))
  let t ← Text.stripPrefix? "GITHUB_OUTPUT".toList (dropOptional (· == '{') t)
  return (⟨name, value⟩, dropOptional (· == '}') t)

/-- The output written by a command in the older form at the beginning of a text. -/
def setOutput? (t : Text) : Option (Output × Text) := do
  let t ← dropBlanks? (← Text.stripPrefix? "::set-output".toList t)
  let t ← Text.stripPrefix? "name=".toList t
  let name := t.takeWhile isNamePart
  if name.isEmpty then none
  let t ← Text.stripPrefix? [':', ':'] (t.dropWhile isNamePart)
  let inValue (c : Char) : Bool := !(isQuote c || c == '\n')
  return (⟨name, t.takeWhile inValue⟩, t.dropWhile inValue)

/-- The outputs of the commands in a text, after `skip` characters that belong to a command
already read.  The first place where a command begins counts, and the search goes on after its
end. -/
def outputsFrom (command? : Text → Option (Output × Text)) : (skip : Nat) → Text → List Output
  | _, [] => []
  | skip + 1, _ :: t => outputsFrom command? skip t
  | 0, c :: t =>
    match command? (c :: t) with
    | some (output, rest) => output :: outputsFrom command? (t.length - rest.length) t
    | none => outputsFrom command? 0 t

end Script

/-- The outputs that a script writes, with the texts written first, without blanks around. -/
def scriptOutputs (script : Text) : Dictionary :=
  let outputs :=
    Script.outputsFrom Script.redirection? 0 script ++ Script.outputsFrom Script.setOutput? 0 script
  Dictionary.ofListFirst (outputs.map fun o =>
    (String.ofList o.name, String.ofList (Text.trim o.value)))

end WorkflowLens
