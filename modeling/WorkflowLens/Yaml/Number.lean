import WorkflowLens.Decimal.Shortest
import WorkflowLens.Yaml.Cursor

/-!
# Numbers in a YAML document

* `Number.ofPlain?`: the number that a plain scalar is, if it is one.
* `Number.text`: the text of a number.

An integer that does not fit 64 bits is refused as long as it fits 128 bits; beyond that it is
read as a floating-point number.
-/

namespace WorkflowLens.Yaml

/-- A number of a document. -/
inductive Number where
  | integer (value : Int)
  | float (value : Binary64)
  deriving DecidableEq, Repr

namespace Number

/-- Whether two numbers are the same.  An integer is never the same as a float. -/
def same : Number → Number → Bool
  | .integer a, .integer b => a == b
  | .float a, .float b => a.same b
  | _, _ => false

/-! ## Integers -/

/-- The number written in a base by at least one digit. -/
def inBase? (base : Nat) (t : Text) : Option Nat :=
  if t.isEmpty then none
  else
    t.foldlM (fun n c =>
      match hexDigit? c with
      | some d => if d < base then some (n * base + d) else none
      | none => none) 0

/-- Whether a text has several digits of which the first is zero. -/
def hasLeadingZero (t : Text) : Bool :=
  match t with
  | '0' :: d :: rest => (d :: rest).all isDecimalDigit
  | _ => false

/-- The natural number that a text without a sign is. -/
def natural? (t : Text) : Option Nat :=
  match t with
  | '0' :: 'x' :: digits => inBase? 16 digits
  | '0' :: 'o' :: digits => inBase? 8 digits
  | '0' :: 'b' :: digits => inBase? 2 digits
  | digits =>
    if hasLeadingZero digits then none else inBase? 10 digits

/-- The integer that a text is. -/
def integer? (t : Text) : Option Int :=
  match t with
  | '-' :: digits => (natural? digits).map fun n => -(n : Int)
  | '+' :: digits => (natural? digits).map Int.ofNat
  | digits => (natural? digits).map Int.ofNat

/-! ## Floats -/

/-- The exponent at the end of a decimal: nothing, or a letter, a sign and digits. -/
def exponent? (t : Text) : Option Int :=
  let digits? (t : Text) : Option Nat :=
    if t.all isDecimalDigit then inBase? 10 t else none
  match t with
  | [] => some 0
  | e :: rest =>
    if e == 'e' || e == 'E' then
      match rest with
      | '-' :: digits => (digits? digits).map fun n => -(n : Int)
      | '+' :: digits => (digits? digits).map Int.ofNat
      | digits => (digits? digits).map Int.ofNat
    else none

/-- The double that a decimal without a sign is: digits with or without a point among them, and
an exponent. -/
def decimal? (negative : Bool) (t : Text) : Option Binary64 := do
  let whole := t.takeWhile isDecimalDigit
  let rest := t.dropWhile isDecimalDigit
  let (fraction, rest) :=
    match rest with
    | '.' :: rest => (rest.takeWhile isDecimalDigit, rest.dropWhile isDecimalDigit)
    | rest => ([], rest)
  let digits ← inBase? 10 (whole ++ fraction)
  let exponent ← exponent? rest
  return Binary64.ofDecimal negative digits (exponent - fraction.length)

/-- The texts of infinity after a sign. -/
def infinityTexts : List Text := [".inf".toList, ".Inf".toList, ".INF".toList]

/-- The texts of the value that is no number. -/
def notANumberTexts : List Text := [".nan".toList, ".NaN".toList, ".NAN".toList]

/-- The float that a text is.  A decimal whose value is not finite is none. -/
def float? (t : Text) : Option Binary64 :=
  if notANumberTexts.contains t then some .notANumber
  else
    let (negative, body) :=
      match t with
      | '-' :: body => (true, body)
      | '+' :: body => (false, body)
      | body => (false, body)
    if infinityTexts.contains body then some (.infinite negative)
    else (decimal? negative body).filter Binary64.isFinite

/-! ## Plain scalars -/

/-- The integer that a plain scalar is, as a number, or that it is none. -/
def ofInteger? (t : Text) : Except Error (Option Number) :=
  match integer? t with
  | some n =>
    if -Int.ofNat (Nat.pow 2 63) ≤ n ∧ n < Int.ofNat (Nat.pow 2 64) then .ok (some (.integer n))
    else if -Int.ofNat (Nat.pow 2 127) ≤ n ∧ n < Int.ofNat (Nat.pow 2 128) then .error .badValue
    else .ok none
  | none => .ok none

/-- The number that a plain scalar is, or that it is none.  Digits after a leading zero are no
number. -/
def ofPlain? (t : Text) : Except Error (Option Number) := do
  match ← ofInteger? t with
  | some n => return some n
  | none =>
    let unsigned :=
      match t with
      | '-' :: digits => digits
      | '+' :: digits => digits
      | digits => digits
    if hasLeadingZero unsigned then return none
    return (float? t).map .float

/-! ## The text of a number -/

/-- The digits of a natural number in base ten. -/
def digitsOf (n : Nat) : Text := Nat.toDigits 10 n

/-- The text of an integer. -/
def integerText : Int → Text
  | .ofNat n => digitsOf n
  | .negSucc n => '-' :: digitsOf (n + 1)

/-- The text of a positive decimal.  From 1e-5 up to 1e16 it has a point and no exponent, and a
whole number has the fraction `.0`; beyond, one digit stands before the point, which is left out
with no digits after it, and a positive exponent has no sign. -/
def decimalText (d : Decimal) : Text :=
  let digits := digitsOf d.digits
  let point : Int := digits.length + d.exponent
  if 0 ≤ d.exponent ∧ point ≤ 16 then
    digits ++ List.replicate d.exponent.toNat '0' ++ ['.', '0']
  else if 0 < point ∧ point ≤ 16 then
    digits.take point.toNat ++ '.' :: digits.drop point.toNat
  else if -5 < point ∧ point ≤ 0 then
    '0' :: '.' :: List.replicate (-point).toNat '0' ++ digits
  else
    let tail := digits.drop 1
    digits.take 1 ++ (if tail.isEmpty then [] else '.' :: tail)
      ++ 'e' :: integerText (point - 1)

/-- The text of a float. -/
def floatText : Binary64 → Text
  | .notANumber => ".nan".toList
  | .infinite negative => (if negative then ['-'] else []) ++ ".inf".toList
  | .finite negative mantissa exponent =>
    (if negative then ['-'] else []) ++
      if mantissa = 0 then "0.0".toList
      else decimalText (Decimal.shortest mantissa exponent)

/-- The text of a number. -/
def text : Number → Text
  | .integer n => integerText n
  | .float x => floatText x

end Number

end WorkflowLens.Yaml
