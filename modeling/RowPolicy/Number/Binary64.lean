/-!
# Double precision numbers

A `Binary64` is a sign, an exponent and a significand in 64 bits. All that happens to it here is
exact arithmetic on natural numbers: the bits without the sign are the number's place on the
half-line of magnitudes, so order and equality compare places, and reading a number rounds a
quotient once, to the nearest place.
-/
namespace RowPolicy

structure Binary64 where
  bits : UInt64
  deriving DecidableEq, Repr

namespace Binary64

/-- The weight of the sign bit. -/
def signWeight : Nat := 0x8000000000000000

/-- How many magnitudes lie from a power of two to the next. It is also the least significand of a
number that is not below them all. -/
def binade : Nat := 0x10000000000000

/-- The magnitudes below this one are finite; above it nothing is a number. -/
def infinityMagnitude : Nat := 0x7ff0000000000000

def isNegative (x : Binary64) : Bool := signWeight ≤ x.bits.toNat

/-- The bits without the sign. Magnitudes are ordered as the numbers that they encode. -/
def magnitude (x : Binary64) : Nat := x.bits.toNat % signWeight

def ofMagnitude (negative : Bool) (magnitude : Nat) : Binary64 :=
  ⟨UInt64.ofNat (if negative then signWeight + magnitude else magnitude)⟩

def isNaN (x : Binary64) : Bool := infinityMagnitude < x.magnitude

def nan : Binary64 := ⟨0x7ff8000000000000⟩

def infinity (negative : Bool) : Binary64 := ofMagnitude negative infinityMagnitude

/-- The place of a number on the whole line. Both zeros have one place. -/
def place (x : Binary64) : Int := if x.isNegative then -x.magnitude else x.magnitude

/-- The order of two numbers. What is not a number has no order to anything. -/
def compare? (x y : Binary64) : Option Ordering :=
  if x.isNaN || y.isNaN then none else some (compare x.place y.place)

/-- The exponent of the least magnitude. -/
def leastExponent : Int := -1074

/-- A finite number is `significand * 2 ^ exponent`, its sign apart. -/
def significand (x : Binary64) : Nat :=
  if x.magnitude < binade then x.magnitude else binade + x.magnitude % binade

def exponent (x : Binary64) : Int :=
  if x.magnitude < binade then leastExponent
  else leastExponent + (x.magnitude / binade : Nat) - 1

/-- A quotient rounded to the nearest integer, a half to the even one. -/
def roundQuotient (num den : Nat) : Nat :=
  let q := num / den
  let r := num % den
  if 2 * r > den ∨ (2 * r = den ∧ q % 2 = 1) then q + 1 else q

/-- `num / den * 2 ^ -e` as a fraction. -/
def scaled (num den : Nat) (e : Int) : Nat × Nat :=
  if 0 ≤ e then (num, den <<< e.toNat) else (num <<< (-e).toNat, den)

/-- The exponent at which `num / den` has a significand of 53 bits, or the least one. -/
def fittingExponent (num den : Nat) : Int :=
  let low := max leastExponent ((num.log2 : Int) - den.log2 - 53)
  let (n, d) := scaled num den low
  if n / d < 2 * binade then low else low + 1

/-- The magnitude nearest to `num / den`, a half to the even one; too much is infinity. -/
def nearestMagnitude (num den : Nat) : Nat :=
  if num = 0 then 0
  else
    let e := fittingExponent num den
    let (n, d) := scaled num den e
    min infinityMagnitude ((e - leastExponent).toNat * binade + roundQuotient n d)

def ofQuotient (negative : Bool) (num den : Nat) : Binary64 :=
  ofMagnitude negative (nearestMagnitude num den)

def ofNat (n : Nat) : Binary64 := ofQuotient false n 1

def ofInt (n : Int) : Binary64 := ofQuotient (n < 0) n.natAbs 1

/-- `10 ^ n`. -/
def tenTo (n : Nat) : Nat := Nat.pow 10 n

/-- The double nearest to `digits * 10 ^ exponent`. Far beyond either end of the range the
answer no longer depends on the digits. -/
def ofDecimal (negative : Bool) (digits : Nat) (exponent : Int) : Binary64 :=
  let top : Int := digits.log2 / 3 + exponent
  if digits = 0 ∨ top < -400 then ofMagnitude negative 0
  else if 400 < exponent then infinity negative
  else if 0 ≤ exponent then ofQuotient negative (digits * tenTo exponent.toNat) 1
  else ofQuotient negative digits (tenTo (-exponent).toNat)

/-- A finite magnitude as a fraction. -/
def fraction (x : Binary64) : Nat × Nat :=
  let e := x.exponent
  if 0 ≤ e then (x.significand <<< e.toNat, 1) else (x.significand, 1 <<< (-e).toNat)

/-- The double nearest to the product of two positive finite doubles. -/
def times (x y : Binary64) : Binary64 :=
  let (a, b) := x.fraction
  let (c, d) := y.fraction
  ofQuotient false (a * c) (b * d)

/-- The double nearest to the quotient of two positive finite doubles. -/
def dividedBy (x y : Binary64) : Binary64 :=
  let (a, b) := x.fraction
  let (c, d) := y.fraction
  ofQuotient false (a * d) (b * c)

def isInfinite (x : Binary64) : Bool := x.magnitude == infinityMagnitude

def isZero (x : Binary64) : Bool := x.magnitude == 0

/-- The same magnitude with the given sign. -/
def withSign (negative : Bool) (x : Binary64) : Binary64 := ofMagnitude negative x.magnitude

end Binary64

end RowPolicy
