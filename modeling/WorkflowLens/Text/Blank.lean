import WorkflowLens.Text.Basic

/-!
# Blanks

The characters with the Unicode property `White_Space`, and texts without them at the ends.
-/

namespace WorkflowLens.Text

/-- Whether a character has the property `White_Space`. -/
def isBlank (c : Char) : Bool :=
  let n := c.toNat
  (9 ≤ n && n ≤ 13) || n == 0x20 || n == 0x85 || n == 0xA0 || n == 0x1680
    || (0x2000 ≤ n && n ≤ 0x200A) || n == 0x2028 || n == 0x2029 || n == 0x202F || n == 0x205F
    || n == 0x3000

/-- The text from its first character that is no blank. -/
def trimStart (t : Text) : Text :=
  t.dropWhile isBlank

/-- The text up to its last character that is no blank. -/
def trimEnd (t : Text) : Text :=
  t.dropEndWhile isBlank

/-- The text without blanks at its ends. -/
def trim (t : Text) : Text :=
  trimEnd (trimStart t)

end WorkflowLens.Text
