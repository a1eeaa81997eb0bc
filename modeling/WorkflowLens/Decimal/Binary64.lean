/-!
# Double-precision numbers

Numbers with a mantissa of 53 bits, kept as exact pairs, so that rounding and printing are
arithmetic on natural numbers.

* `Binary64.ofDecimal`: the double nearest to a decimal, a half going to the even mantissa.
* `Binary64.same`: equality of numbers, in which the two zeros are equal and a value that is no
  number equals itself.
-/

namespace WorkflowLens

/-- A double-precision number.  A finite one is `mantissa * 2 ^ exponent`, either with a mantissa
of 53 bits or with the least exponent, -1074. -/
inductive Binary64 where
  | finite (negative : Bool) (mantissa : Nat) (exponent : Int)
  | infinite (negative : Bool)
  | notANumber
  deriving DecidableEq, Repr

namespace Binary64

/-- `n * 2 ^ e` as a fraction. -/
def timesPowTwo (n : Nat) : Int → Nat × Nat
  | .ofNat k => (n * Nat.pow 2 k, 1)
  | .negSucc k => (n, Nat.pow 2 (k + 1))

/-- `n * 10 ^ e` as a fraction. -/
def timesPowTen (n : Nat) : Int → Nat × Nat
  | .ofNat k => (n * Nat.pow 10 k, 1)
  | .negSucc k => (n, Nat.pow 10 (k + 1))

/-- The natural number nearest to a fraction, a half going to the even one. -/
def roundHalfEven (num den : Nat) : Nat :=
  let floor := num / den
  let rest := num % den
  if 2 * rest < den then floor
  else if den < 2 * rest then floor + 1
  else floor + floor % 2

/-- The exponent of the greatest power of two that is at most a positive fraction. -/
def floorLog2 (num den : Nat) : Int :=
  let guess : Int := (num.log2 : Int) - den.log2
  let (low, one) := timesPowTwo den guess
  if low ≤ num * one then guess else guess - 1

/-- The double nearest to a nonnegative fraction. -/
def ofFraction (negative : Bool) (num den : Nat) : Binary64 :=
  if num = 0 then .finite negative 0 (-1074)
  else
    let exponent := max (floorLog2 num den - 52) (-1074)
    let (scale, one) := timesPowTwo 1 exponent
    let mantissa := roundHalfEven (num * one) (den * scale)
    let (mantissa, exponent) :=
      if mantissa = Nat.pow 2 53 then (Nat.pow 2 52, exponent + 1) else (mantissa, exponent)
    if 971 < exponent then .infinite negative else .finite negative mantissa exponent

/-- The double nearest to `digits * 10 ^ exponent`.  Exponents far outside the range are decided
without writing the number out. -/
def ofDecimal (negative : Bool) (digits : Nat) (exponent : Int) : Binary64 :=
  if digits = 0 then .finite negative 0 (-1074)
  else if 400 < exponent then .infinite negative
  else if exponent + (Nat.toDigits 10 digits).length < -400 then .finite negative 0 (-1074)
  else
    let (num, den) := timesPowTen digits exponent
    ofFraction negative num den

/-- Whether two doubles are the same number. -/
def same : Binary64 → Binary64 → Bool
  | .finite n m e, .finite n' m' e' => (m == 0 && m' == 0) || (n == n' && m == m' && e == e')
  | .infinite n, .infinite n' => n == n'
  | .notANumber, .notANumber => true
  | _, _ => false

/-- Whether the number is finite. -/
def isFinite : Binary64 → Bool
  | .finite .. => true
  | _ => false

end Binary64

end WorkflowLens
