import RowPolicy.Number.Numeral
import RowPolicy.Text.ByteCount

/-!
# Lexical elements of JSON

Strings, numbers and words of JSON text. A `Fault` says whether a text breaks the rules of JSON,
ends too early, or is JSON of another shape than wanted.

Where what was read is not used, only its end is looked for: an escape may then stand for half a
character, and a number may be of any size.
-/
namespace RowPolicy.Json

inductive Fault where
  /-- The text breaks the rules of JSON. -/
  | malformed
  /-- The text ends too early. -/
  | truncated
  /-- JSON of another shape. -/
  | misshapen
  deriving DecidableEq, Repr

abbrev Reading (α : Type) := Except Fault (α × List Char)

def isSpace (c : Char) : Bool := c == ' ' || c == '\n' || c == '\t' || c == '\r'

def skipSpace (cs : List Char) : List Char := cs.dropWhile isSpace

/-- What is left behind the given characters. -/
def literally : List Char → List Char → Except Fault (List Char)
  | [], cs => .ok cs
  | _ :: _, [] => .error .truncated
  | w :: ws, c :: cs => if w = c then literally ws cs else .error .malformed

/-! ## Strings -/

def hexDigit? (c : Char) : Option Nat :=
  if '0' ≤ c ∧ c ≤ '9' then some (c.toNat - '0'.toNat)
  else if 'a' ≤ c ∧ c ≤ 'f' then some (c.toNat - 'a'.toNat + 10)
  else if 'A' ≤ c ∧ c ≤ 'F' then some (c.toNat - 'A'.toNat + 10)
  else none

def hexValue? (cs : List Char) : Option Nat :=
  cs.foldl (fun n c => n.bind fun n => (hexDigit? c).map (16 * n + ·)) (some 0)

/-- Four hexadecimal digits. Fewer than four bytes left are too few whatever they are. -/
def codeUnit (cs : List Char) : Except Fault Nat :=
  if byteCount (cs.take 4) < 4 then .error .truncated
  else
    match hexValue? (cs.take 4) with
    | some n => .ok n
    | none => .error .malformed

def isHighSurrogate (n : Nat) : Bool := 0xd800 ≤ n && n < 0xdc00

def isLowSurrogate (n : Nat) : Bool := 0xdc00 ≤ n && n < 0xe000

/-- The second half of a pair, written as an escape of its own. -/
def lowSurrogate (cs : List Char) : Except Fault Nat :=
  match literally ['\\', 'u'] cs with
  | .error f => .error f
  | .ok cs =>
    match codeUnit cs with
    | .error f => .error f
    | .ok n => if isLowSurrogate n then .ok n else .error .malformed

/-- The character of an escape that starts with `u`, and how many characters it takes behind that
letter. -/
def unicodeEscape (cs : List Char) : Except Fault (Char × Nat) :=
  match codeUnit cs with
  | .error f => .error f
  | .ok n =>
    if isLowSurrogate n then .error .malformed
    else if isHighSurrogate n then
      match lowSurrogate (cs.drop 4) with
      | .error f => .error f
      | .ok m => .ok (Char.ofNat (0x10000 + (n - 0xd800) * 0x400 + (m - 0xdc00)), 10)
    else .ok (Char.ofNat n, 4)

/-- Escapes of one letter. -/
def shortEscape? (c : Char) : Option Char :=
  if c = '"' ∨ c = '\\' ∨ c = '/' then some c
  else if c = 'b' then some '\x08'
  else if c = 'f' then some '\x0c'
  else if c = 'n' then some '\n'
  else if c = 'r' then some '\r'
  else if c = 't' then some '\t'
  else none

/-- The character of an escape, and how many characters it takes behind the backslash. -/
def escape (cs : List Char) : Except Fault (Char × Nat) :=
  match cs with
  | [] => .error .truncated
  | 'u' :: cs =>
    match unicodeEscape cs with
    | .error f => .error f
    | .ok (c, n) => .ok (c, n + 1)
  | c :: _ =>
    match shortEscape? c with
    | some d => .ok (d, 1)
    | none => .error .malformed

def isControl (c : Char) : Bool := c.toNat < 0x20

/-- The content of a string behind its opening quote. -/
def stringBody (cs : List Char) : Reading (List Char) :=
  match cs with
  | [] => .error .truncated
  | c :: rest =>
    if c = '"' then .ok ([], rest)
    else if c = '\\' then
      match escape rest with
      | .error f => .error f
      | .ok (d, taken) =>
        match stringBody (rest.drop taken) with
        | .error f => .error f
        | .ok (s, rest) => .ok (d :: s, rest)
    else if isControl c then .error .malformed
    else
      match stringBody rest with
      | .error f => .error f
      | .ok (s, rest) => .ok (c :: s, rest)
termination_by cs.length
decreasing_by
  · simp only [List.length_drop, List.length_cons]; omega
  · simp

/-- How many characters an escape takes behind the backslash when its meaning does not matter. -/
def escapeLength (cs : List Char) : Except Fault Nat :=
  match cs with
  | [] => .error .truncated
  | 'u' :: cs =>
    match codeUnit cs with
    | .error f => .error f
    | .ok _ => .ok 5
  | c :: _ => if (shortEscape? c).isSome then .ok 1 else .error .malformed

/-- The text behind the closing quote of a string. -/
def skipString (cs : List Char) : Except Fault (List Char) :=
  match cs with
  | [] => .error .truncated
  | c :: rest =>
    if c = '"' then .ok rest
    else if c = '\\' then
      match escapeLength rest with
      | .error f => .error f
      | .ok taken => skipString (rest.drop taken)
    else if isControl c then .error .malformed
    else skipString rest
termination_by cs.length
decreasing_by
  · simp only [List.length_drop, List.length_cons]; omega
  · simp

/-! ## Numbers

The digits of a number are kept as long as they fit in 64 bits. From the first that does not, digits
only count: those before the point raise the exponent. The number is then scaled by a rounded power
of ten, in more than one step if the exponent is low. -/

inductive Number where
  | int (n : Int)
  | float (x : Binary64)

def Number.zero (negative : Bool) : Number := .float (.ofMagnitude negative 0)

/-- A significand that was kept exactly and the weight of its last digit. -/
structure Scale where
  significand : Nat
  exponent : Int

def greatestKept : Nat := 0xffffffffffffffff

def powerOfTen (n : Nat) : Binary64 := Binary64.ofNat (Binary64.tenTo n)

/-- Divide by a power of ten; the range of doubles takes at most a few steps. -/
def scaleDown (x : Binary64) (exponent : Nat) : Binary64 :=
  if exponent ≤ 308 then x.dividedBy (powerOfTen exponent)
  else if x.isZero then x
  else scaleDown (x.dividedBy (powerOfTen 308)) (exponent - 308)
termination_by exponent

def Scale.number (negative : Bool) (s : Scale) : Except Fault Number :=
  let x := Binary64.ofNat s.significand
  if s.exponent < 0 then
    .ok (.float ((scaleDown x (-s.exponent).toNat).withSign negative))
  else if x.isZero then .ok (Number.zero negative)
  else if 308 < s.exponent then .error .malformed
  else
    let y := x.times (powerOfTen s.exponent.toNat)
    if y.isInfinite then .error .malformed else .ok (.float (y.withSign negative))

/-- The digits of an exponent. An exponent beyond 32 bits makes a number zero or too large. -/
def exponentDigits (negative lowered : Bool) (s : Scale) (cs : List Char) : Reading Number :=
  match cs with
  | [] => .error .truncated
  | c :: _ =>
    if !Numeral.isDigit c then .error .malformed
    else
      let digits := cs.takeWhile Numeral.isDigit
      let rest := cs.dropWhile Numeral.isDigit
      let e := Numeral.value digits
      if 0x80000000 ≤ e then
        if s.significand = 0 ∨ lowered then .ok (Number.zero negative, rest)
        else .error .malformed
      else
        let shifted := if lowered then s.exponent - e else s.exponent + e
        match Scale.number negative ⟨s.significand, shifted⟩ with
        | .error f => .error f
        | .ok n => .ok (n, rest)

/-- What may stand behind the digits of a number: an exponent. -/
def exponentPart (negative : Bool) (s : Scale) (cs : List Char) : Reading Number :=
  match cs with
  | 'e' :: '-' :: rest | 'E' :: '-' :: rest => exponentDigits negative true s rest
  | 'e' :: '+' :: rest | 'E' :: '+' :: rest => exponentDigits negative false s rest
  | 'e' :: rest | 'E' :: rest => exponentDigits negative false s rest
  | rest =>
    match s.number negative with
    | .error f => .error f
    | .ok n => .ok (n, rest)

/-- Keep digits behind the point while they fit. -/
def keepPlaces (s : Scale) : List Char → Scale
  | [] => s
  | c :: cs =>
    let n := 10 * s.significand + Numeral.digitValue c
    if greatestKept < n then s else keepPlaces ⟨n, s.exponent - 1⟩ cs

/-- Digits behind the point, of which there has to be one. -/
def fractionPart (negative : Bool) (s : Scale) (cs : List Char) : Reading Number :=
  match cs with
  | [] => .error .truncated
  | c :: _ =>
    if !Numeral.isDigit c then .error .malformed
    else
      exponentPart negative (keepPlaces s (cs.takeWhile Numeral.isDigit))
        (cs.dropWhile Numeral.isDigit)

/-- The digits before the point that fit, and how many do not. -/
def keepWhole (n : Nat) : List Char → Nat × Nat
  | [] => (n, 0)
  | c :: cs =>
    let m := 10 * n + Numeral.digitValue c
    if greatestKept < m then (n, cs.length + 1) else keepWhole m cs

/-- A number without point and exponent is an integer, unless it is minus zero or lies below the
integers of 64 bits. -/
def wholeNumber (negative : Bool) (n : Nat) : Number :=
  if negative ∧ (n = 0 ∨ 0x8000000000000000 < n) then .float ((Binary64.ofNat n).withSign true)
  else .int (Numeral.negateIf negative n)

/-- A number behind its sign. -/
def numberBody (negative : Bool) (cs : List Char) : Reading Number :=
  match cs with
  | [] => .error .truncated
  | c :: tail =>
    if !Numeral.isDigit c then .error .malformed
    else
      let digits := cs.takeWhile Numeral.isDigit
      if c = '0' ∧ (tail.head?.any Numeral.isDigit) then .error .malformed
      else
        let (n, dropped) := keepWhole 0 digits
        match cs.dropWhile Numeral.isDigit with
        | '.' :: rest => fractionPart negative ⟨n, dropped⟩ rest
        | rest =>
          match rest with
          | 'e' :: _ | 'E' :: _ => exponentPart negative ⟨n, dropped⟩ rest
          | _ =>
            if dropped = 0 then .ok (wholeNumber negative n, rest)
            else exponentPart negative ⟨n, dropped⟩ rest

def number : List Char → Reading Number
  | '-' :: cs => numberBody true cs
  | cs => numberBody false cs

/-- The end of an exponent. -/
def skipExponent (cs : List Char) : Except Fault (List Char) :=
  let digits := match cs with
    | '+' :: rest | '-' :: rest => rest
    | _ => cs
  if digits.head?.any Numeral.isDigit then .ok (digits.dropWhile Numeral.isDigit)
  else .error .malformed

def skipExponentPart : List Char → Except Fault (List Char)
  | 'e' :: rest | 'E' :: rest => skipExponent rest
  | rest => .ok rest

/-- The end of a number behind its sign. Where a digit is missing at the end of the text the
number is malformed. -/
def skipNumber (cs : List Char) : Except Fault (List Char) :=
  match cs with
  | [] => .error .malformed
  | c :: tail =>
    if !Numeral.isDigit c then .error .malformed
    else if c = '0' ∧ (tail.head?.any Numeral.isDigit) then .error .malformed
    else
      match cs.dropWhile Numeral.isDigit with
      | '.' :: rest =>
        if rest.head?.any Numeral.isDigit then skipExponentPart (rest.dropWhile Numeral.isDigit)
        else .error .malformed
      | rest => skipExponentPart rest

end RowPolicy.Json
