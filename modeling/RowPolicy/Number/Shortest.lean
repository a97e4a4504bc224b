import RowPolicy.Number.Binary64

/-!
# The shortest decimal of a double

Every finite double stands for all the real numbers that round to it. Among the decimals in
that interval `Binary64.shortest` takes one with the fewest digits, and of those the nearest to
the double; of two equally near ones it takes the larger. `Binary64.plain` writes the result
with its digits in place, however many zeros that takes, and never with an exponent.
-/
namespace RowPolicy

namespace Binary64

/-- The reals that round to a magnitude, as `low / den .. high / den`, and the magnitude itself
as `mid / den`. The ends belong to the interval when the significand is even. -/
structure Neighbourhood where
  low : Nat
  mid : Nat
  high : Nat
  den : Nat
  closed : Bool

/-- Below a power of two the doubles lie twice as dense as above it. -/
def neighbourhood (x : Binary64) : Neighbourhood :=
  let m := x.significand
  let below := if m = binade ∧ leastExponent < x.exponent then 1 else 2
  let (n, d) := x.fraction
  let unit := n / m
  { low := 4 * n - below * unit
    mid := 4 * n
    high := 4 * n + 2 * unit
    den := 4 * d
    closed := m % 2 = 0 }

/-- Whether `n / d` rounds to the magnitude. -/
def Neighbourhood.contains (i : Neighbourhood) (n d : Nat) : Bool :=
  if i.closed then decide (i.low * d ≤ n * i.den) && decide (n * i.den ≤ i.high * d)
  else decide (i.low * d < n * i.den) && decide (n * i.den < i.high * d)

/-- `digits * 10 ^ exponent`. -/
structure Decimal where
  digits : Nat
  exponent : Int
  deriving DecidableEq, Repr

def Decimal.fraction (x : Decimal) : Nat × Nat :=
  if 0 ≤ x.exponent then (x.digits * tenTo x.exponent.toNat, 1)
  else (x.digits, tenTo (-x.exponent).toNat)

/-- The nearest decimal of the interval whose last digit has the weight `10 ^ exponent`. Only the
two neighbours of the magnitude on that grid need a look. -/
def Neighbourhood.onGrid? (i : Neighbourhood) (exponent : Int) : Option Decimal :=
  let (n, d) := if 0 ≤ exponent then (i.mid, i.den * tenTo exponent.toNat)
    else (i.mid * tenTo (-exponent).toNat, i.den)
  let lower : Decimal := ⟨n / d, exponent⟩
  let upper : Decimal := ⟨n / d + 1, exponent⟩
  let hit (x : Decimal) : Bool := i.contains x.fraction.1 x.fraction.2
  match hit lower, hit upper with
  | true, true => some (if 2 * (n % d) < d then lower else upper)
  | true, false => some lower
  | false, true => some upper
  | false, false => none

/-- The number of decimal digits of a positive number. -/
def digitCount (n : Nat) : Nat := (Nat.toDigits 10 n).length

/-- The weight of the leading digit: the greatest `e` with `10 ^ e ≤ n / d`. -/
def leadingExponent (n d : Nat) : Int :=
  if d ≤ n then digitCount (n / d) - 1
  else
    let guess : Int := -(digitCount (d / n) : Int)
    if d ≤ n * tenTo (-guess - 1).toNat then guess + 1 else guess

/-- The first grid with a hit, from coarse to fine. -/
def Neighbourhood.search (i : Neighbourhood) (exponent : Int) : Nat → Decimal
  | 0 => ⟨i.mid / i.den, 0⟩
  | tries + 1 =>
    match i.onGrid? exponent with
    | some x => x
    | none => i.search (exponent - 1) tries

/-- Seventeen digits always suffice. The first grid lies above the leading digit, for a magnitude
that rounds up to the next power of ten. -/
def shortest (x : Binary64) : Decimal :=
  let i := x.neighbourhood
  i.search (leadingExponent i.mid i.den + 1) 19

/-- A decimal with its digits in place. -/
def Decimal.plain (x : Decimal) : String :=
  let digits := Nat.toDigits 10 x.digits
  if 0 ≤ x.exponent then
    String.ofList (digits ++ List.replicate x.exponent.toNat '0')
  else
    let places := (-x.exponent).toNat
    let padded := List.replicate (places + 1 - digits.length) '0' ++ digits
    let point := padded.length - places
    String.ofList (padded.take point ++ '.' :: padded.drop point)

/-- The text of a double: shortest digits, no exponent, no point behind an integer. -/
def plain (x : Binary64) : String :=
  if x.isNaN then "NaN"
  else
    let sign := if x.isNegative then "-" else ""
    if x.isInfinite then sign ++ "inf"
    else if x.isZero then sign ++ "0"
    else sign ++ x.shortest.plain

end Binary64

end RowPolicy
