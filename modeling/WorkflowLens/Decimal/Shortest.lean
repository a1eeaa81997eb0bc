import WorkflowLens.Decimal.Binary64

/-!
# The fewest digits that read back

All reals nearer to a double than to its neighbours read back as that double; the ends of this
interval belong to it when the mantissa is even.  `shortest` is the decimal with the fewest
digits in the interval, and of several such the one nearest to the double, a tie going to the
even last digit.  With a number of digits fixed, only the two neighbours of the double on the
grid of that many digits can be nearest, so only they are tried.
-/

namespace WorkflowLens

/-- The decimal `digits * 10 ^ exponent`. -/
structure Decimal where
  digits : Nat
  exponent : Int
  deriving DecidableEq, Repr

namespace Decimal

open Binary64 (timesPowTwo timesPowTen)

/-- A positive double between the ends of the interval that reads back as it, all three as
numerators over `den`. -/
structure Rounding where
  low : Nat
  value : Nat
  high : Nat
  den : Nat
  closed : Bool

/-- The interval of `mantissa * 2 ^ exponent`.  Below a power of two the neighbour is only half
as far away, except at the least exponent. -/
def Rounding.ofDouble (mantissa : Nat) (exponent : Int) : Rounding :=
  let (unit, den) := timesPowTwo 1 (exponent - 2)
  let below := if mantissa = Nat.pow 2 52 ∧ exponent ≠ -1074 then 1 else 2
  ⟨(4 * mantissa - below) * unit, 4 * mantissa * unit, (4 * mantissa + 2) * unit, den,
    mantissa % 2 == 0⟩

/-- Whether `n * 10 ^ e` reads back as the double. -/
def Rounding.holds (r : Rounding) (n : Nat) (e : Int) : Bool :=
  let (num, den) := timesPowTen n e
  let x := num * r.den
  if r.closed then r.low * den ≤ x && x ≤ r.high * den
  else r.low * den < x && x < r.high * den

/-- The least `k` from `guess` on, in three steps, with the double below `10 ^ k`. -/
def Rounding.pointFrom (r : Rounding) (guess : Int) : Int :=
  let below (k : Int) : Bool :=
    let (num, den) := timesPowTen 1 k
    r.value * den < num * r.den
  if below guess then guess else if below (guess + 1) then guess + 1 else guess + 2

/-- The multiple of `10 ^ e` next to the double that reads back as it, if one does. -/
def Rounding.onGrid? (r : Rounding) (e : Int) : Option Nat :=
  let (unit, one) := timesPowTen 1 e
  let floor := r.value * one / (r.den * unit)
  match r.holds floor e, r.holds (floor + 1) e with
  | true, true => some (Binary64.roundHalfEven (r.value * one) (r.den * unit))
  | true, false => some floor
  | false, true => some (floor + 1)
  | false, false => none

/-- The decimal without zeros at the end of its digits; `fuel` bounds how many are looked for. -/
def stripZeros : (fuel : Nat) → Decimal → Decimal
  | 0, d => d
  | fuel + 1, d =>
    if d.digits % 10 = 0 ∧ d.digits ≠ 0 then stripZeros fuel ⟨d.digits / 10, d.exponent + 1⟩
    else d

/-- The shortest decimal that reads back as a positive double.  Seventeen digits always do. -/
def shortest (mantissa : Nat) (exponent : Int) : Decimal :=
  let r := Rounding.ofDouble mantissa exponent
  let point := r.pointFrom (((mantissa.log2 : Int) + exponent) * 30103 / 100000)
  let found := (List.range 17).findSome? fun i =>
    let e := point - (i + 1 : Nat)
    (r.onGrid? e).map fun n => (⟨n, e⟩ : Decimal)
  stripZeros 20 (found.getD ⟨mantissa, 0⟩)

end Decimal

end WorkflowLens
