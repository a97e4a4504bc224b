import Mathlib.Data.List.Forall2
import RowPolicy.Json.Document
import RowPolicy.Proofs.Number.Digits

/-!
# How JSON is written

The ways to write JSON, said without a reader but for the size that a number may have. A text of
characters is written between quotes, each of its characters as it is or as an escape. An array or
an object is a series of parts between brackets, with commas between the parts and white space
around them.

What a text between quotes may hold and which numbers there may be is left open in `IsValue`. It is
settled in two ways: where a value is used, its texts are made of characters and its numbers are
within the range of the reader; where it is not used, an escape may also stand for half a character
and a number may have any size.
-/
namespace RowPolicy.Json

/-- White space, or nothing. -/
def IsGap (cs : List Char) : Prop := ∀ c ∈ cs, isSpace c = true

/-! ## Texts -/

/-- A hexadecimal digit, in either case, and its value. -/
def IsHexDigit (c : Char) (n : Nat) : Prop :=
  "0123456789abcdef".toList[n]? = some c ∨ "0123456789ABCDEF".toList[n]? = some c

/-- Four hexadecimal digits, and the number that they denote. -/
inductive IsCodeUnit : Nat → List Char → Prop where
  | mk {a b c d : Char} {k l m n : Nat} (ha : IsHexDigit a k) (hb : IsHexDigit b l)
    (hc : IsHexDigit c m) (hd : IsHexDigit d n) :
    IsCodeUnit (((k * 16 + l) * 16 + m) * 16 + n) [a, b, c, d]

/-- The letters behind a backslash that stand for one character, and these characters. -/
def shortEscapes : List (Char × Char) :=
  [('"', '"'), ('\\', '\\'), ('/', '/'), ('b', '\x08'), ('f', '\x0c'), ('n', '\n'), ('r', '\r'),
    ('t', '\t')]

/-- A character that needs no escape. -/
def IsPlain (c : Char) : Prop := c ≠ '"' ∧ c ≠ '\\' ∧ 0x20 ≤ c.toNat

instance (c : Char) : Decidable (IsPlain c) :=
  inferInstanceAs (Decidable (_ ∧ _))

/-- How a character may stand between quotes. One beyond the code units is a pair of them. -/
inductive Quoted : Char → List Char → Prop where
  | plain {c : Char} (h : IsPlain c) : Quoted c [c]
  | short {letter c : Char} (h : (letter, c) ∈ shortEscapes) : Quoted c ['\\', letter]
  | unit {c : Char} {digits : List Char} (h : IsCodeUnit c.toNat digits) :
    Quoted c ('\\' :: 'u' :: digits)
  | pair {c : Char} {high low : Nat} {digits digits' : List Char} (hhigh : IsCodeUnit high digits)
    (hlow : IsCodeUnit low digits') (hhigh' : 0xd800 ≤ high ∧ high < 0xdc00)
    (hlow' : 0xdc00 ≤ low ∧ low < 0xe000)
    (h : c.toNat = 0x10000 + (high - 0xd800) * 0x400 + (low - 0xdc00)) :
    Quoted c ('\\' :: 'u' :: (digits ++ '\\' :: 'u' :: digits'))

/-- The text written between quotes. -/
def WrittenString (s : String) (cs : List Char) : Prop :=
  ∃ parts, List.Forall₂ Quoted s.toList parts ∧ cs = '"' :: (parts.flatten ++ ['"'])

/-- What may stand between quotes, whether or not it makes up whole characters. -/
inductive QuotedPart : List Char → Prop where
  | plain {c : Char} (h : IsPlain c) : QuotedPart [c]
  | short {letter c : Char} (h : (letter, c) ∈ shortEscapes) : QuotedPart ['\\', letter]
  | unit {n : Nat} {digits : List Char} (h : IsCodeUnit n digits) :
    QuotedPart ('\\' :: 'u' :: digits)

def IsQuoted (cs : List Char) : Prop :=
  ∃ parts : List (List Char), (∀ part ∈ parts, QuotedPart part) ∧
    cs = '"' :: (parts.flatten ++ ['"'])

/-! ## Numbers -/

def IsDigits (cs : List Char) : Prop := cs ≠ [] ∧ ∀ c ∈ cs, Numeral.isDigit c = true

/-- Digits before the point, of which only a lone one may be a leading zero. -/
def IsWhole (cs : List Char) : Prop := IsDigits cs ∧ (cs.head? = some '0' → cs = ['0'])

/-- A point with digits behind it, or nothing. -/
inductive IsFraction : List Char → Prop where
  | none : IsFraction []
  | digits {places : List Char} (h : IsDigits places) : IsFraction ('.' :: places)

/-- An exponent, or nothing. -/
inductive IsExponent : List Char → Prop where
  | none : IsExponent []
  | digits {letter : Char} {sign digits : List Char} (hletter : letter = 'e' ∨ letter = 'E')
    (hsign : sign = [] ∨ sign = ['+'] ∨ sign = ['-']) (h : IsDigits digits) :
    IsExponent (letter :: (sign ++ digits))

inductive IsNumeral : List Char → Prop where
  | mk (negative : Bool) {whole fraction exponent : List Char} (hwhole : IsWhole whole)
    (hfraction : IsFraction fraction) (hexponent : IsExponent exponent) :
    IsNumeral (Numeral.minusIf negative ++ (whole ++ (fraction ++ exponent)))

/-- A numeral whose number is not too large for the reader. -/
def IsNumeralInRange (cs : List Char) : Prop := IsNumeral cs ∧ ∃ n, number cs = .ok (n, [])

/-! ## Parts between brackets -/

/-- One or more parts with commas between them and gaps around them. Each member of the list is
written by one of the parts. -/
inductive Series {α : Type} (Part : α → List Char → Prop) : List α → List Char → Prop where
  | last {a : α} {before part after : List Char} (hbefore : IsGap before) (h : Part a part)
    (hafter : IsGap after) : Series Part [a] (before ++ (part ++ after))
  | cons {a : α} {as : List α} {before part after more : List Char} (hbefore : IsGap before)
    (h : Part a part) (hafter : IsGap after) (hmore : Series Part as more) :
    Series Part (a :: as) (before ++ (part ++ (after ++ ',' :: more)))

inductive Enclosed {α : Type} (opening closing : Char) (Part : α → List Char → Prop) :
    List α → List Char → Prop where
  | none {gap : List Char} (h : IsGap gap) :
    Enclosed opening closing Part [] (opening :: (gap ++ [closing]))
  | series {as : List α} {cs : List Char} (h : Series Part as cs) :
    Enclosed opening closing Part as (opening :: (cs ++ [closing]))

/-- A key and a value with a colon between them. -/
inductive Member (Key Value : List Char → Prop) : List Char → Prop where
  | mk {key before after value : List Char} (hkey : Key key) (hbefore : IsGap before)
    (hafter : IsGap after) (hvalue : Value value) :
    Member Key Value (key ++ (before ++ ':' :: (after ++ value)))

/-! ## Values -/

section

variable (IsText IsNumber : List Char → Prop)

/-- A value without parts. -/
inductive IsAtom : List Char → Prop where
  | null : IsAtom "null".toList
  | isTrue : IsAtom "true".toList
  | isFalse : IsAtom "false".toList
  | text {cs : List Char} (h : IsText cs) : IsAtom cs
  | number {cs : List Char} (h : IsNumber cs) : IsAtom cs

/-- A value in which brackets are nested at most `depth` times. -/
def IsValue : Nat → List Char → Prop
  | 0, cs => IsAtom IsText IsNumber cs
  | depth + 1, cs =>
    IsAtom IsText IsNumber cs ∨
      (∃ count : List Unit, Enclosed '[' ']' (fun _ => IsValue depth) count cs) ∨
      ∃ count : List Unit,
        Enclosed '\x7b' '\x7d' (fun _ => Member IsText (IsValue depth)) count cs

end

/-- A value that is used. -/
def IsUsed (depth : Nat) (cs : List Char) : Prop :=
  IsValue (fun text => ∃ s, WrittenString s text) IsNumeralInRange depth cs

/-- A value that is not used, nested to any depth. -/
def IsUnused (cs : List Char) : Prop := ∃ depth, IsValue IsQuoted IsNumeral depth cs

end RowPolicy.Json
