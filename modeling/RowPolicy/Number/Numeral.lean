import RowPolicy.Number.Binary64

/-!
# Reading numbers

`Numeral.int64?` and `Numeral.binary64?` read a whole text as a number. An integer is a sign
that may be missing and one or more digits, within 64 bits. A double may have a point with digits
on at least one side, an exponent, or be one of the words for infinity and for no number, in any
case. Nothing else may stand in the text, blanks included.
-/
namespace RowPolicy

namespace Numeral

def isDigit (c : Char) : Bool := '0' ≤ c && c ≤ '9'

def digitValue (c : Char) : Nat := c.toNat - '0'.toNat

/-- The number that some digits denote. -/
def value (digits : List Char) : Nat := Nat.ofDigitChars 10 digits 0

@[simp] theorem value_toDigits (n : Nat) : value (Nat.toDigits 10 n) = n :=
  Nat.ofDigitChars_ten_toDigits

/-- A sign that may be missing, as "is negative", and what follows. -/
def sign : List Char → Bool × List Char
  | '-' :: cs => (true, cs)
  | '+' :: cs => (false, cs)
  | cs => (false, cs)

def negateIf (negative : Bool) (n : Nat) : Int := if negative then -n else n

def natural? (cs : List Char) : Option Nat :=
  if cs.isEmpty || !cs.all isDigit then none else some (value cs)

def integer? (cs : List Char) : Option Int :=
  let (negative, digits) := sign cs
  (natural? digits).map (negateIf negative)

/-- An integer as a 64-bit number, if it is one. -/
def fit64? (n : Int) : Option Int64 :=
  if Int64.minValue.toInt ≤ n ∧ n ≤ Int64.maxValue.toInt then some (Int64.ofInt n) else none

def int64? (cs : List Char) : Option Int64 := (integer? cs).bind fit64?

/-- The exponent behind the digits of a double: nothing, or a letter and an integer. -/
def exponent? : List Char → Option Int
  | [] => some 0
  | c :: cs => if c = 'e' ∨ c = 'E' then integer? cs else none

/-- A double without its sign. -/
def magnitude? (negative : Bool) (cs : List Char) : Option Binary64 :=
  let whole := cs.takeWhile isDigit
  let (places, rest) := match cs.dropWhile isDigit with
    | '.' :: rest => (rest.takeWhile isDigit, rest.dropWhile isDigit)
    | rest => ([], rest)
  if whole.isEmpty && places.isEmpty then none
  else (exponent? rest).map fun e =>
    Binary64.ofDecimal negative (value (whole ++ places)) (e - places.length)

/-- Whether a text is a word, in any case of ASCII letters. -/
def isWord (word : String) (cs : List Char) : Bool :=
  String.ofList (cs.map Char.toLower) == word

def binary64? (cs : List Char) : Option Binary64 :=
  let (negative, rest) := sign cs
  if isWord "inf" rest || isWord "infinity" rest then some (Binary64.infinity negative)
  else if isWord "nan" rest then some Binary64.nan
  else magnitude? negative rest

/-- The decimal text of an integer. -/
def decimal (n : Int) : String :=
  (if n < 0 then "-" else "") ++ String.ofList (Nat.toDigits 10 n.natAbs)

end Numeral

end RowPolicy
