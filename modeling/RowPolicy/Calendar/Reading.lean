import RowPolicy.Calendar.Date
import RowPolicy.Text.Blank

/-!
# Reading dates and date-times

A whole text is read as year, month and day with dashes between them, or as that and a clock
behind a `T` or a space. White space may stand before each number, and the space between date and
clock is any amount of it. A number has at most as many digits as its field; only a year with a
sign may have more.
-/
namespace RowPolicy

namespace Calendar

/-- Up to `width` digits after white space, as a number. -/
def field? (width : Nat) (cs : List Char) : Option (Nat × List Char) :=
  let start := trimStart cs
  let digits := (start.take width).takeWhile Numeral.isDigit
  if digits.isEmpty then none else some (Numeral.value digits, start.drop digits.length)

def literal? (c : Char) : List Char → Option (List Char)
  | [] => none
  | d :: cs => if d = c then some cs else none

/-- Any number of digits right behind the sign. -/
def signedYear? (negative : Bool) (cs : List Char) : Option (Int × List Char) :=
  let digits := cs.takeWhile Numeral.isDigit
  if digits.isEmpty then none
  else some (Numeral.negateIf negative (Numeral.value digits), cs.drop digits.length)

def year? (cs : List Char) : Option (Int × List Char) :=
  match trimStart cs with
  | '-' :: rest => signedYear? true rest
  | '+' :: rest => signedYear? false rest
  | rest => (field? 4 rest).map fun (year, rest) => ((year : Int), rest)

/-- A date at the front of a text. -/
def date? (cs : List Char) : Option (Date × List Char) := do
  let (year, cs) ← year? cs
  let cs ← literal? '-' cs
  let (month, cs) ← field? 2 cs
  let cs ← literal? '-' cs
  let (day, cs) ← field? 2 cs
  let date ← Date.of? year month day
  return (date, cs)

/-- A clock at the front of a text, on the given day. -/
def clock? (date : Date) (cs : List Char) : Option (DateTime × List Char) := do
  let (hour, cs) ← field? 2 cs
  let cs ← literal? ':' cs
  let (minute, cs) ← field? 2 cs
  let cs ← literal? ':' cs
  let (second, cs) ← field? 2 cs
  let t ← DateTime.ofClock? date hour minute second
  return (t, cs)

/-- What was read, if nothing follows it. -/
def complete? {α : Type} : Option (α × List Char) → Option α
  | some (a, []) => some a
  | _ => none

end Calendar

def Date.ofText? (cs : List Char) : Option Date := Calendar.complete? (Calendar.date? cs)

/-- A clock behind a `T`. -/
def DateTime.ofMarkedText? (cs : List Char) : Option DateTime := do
  let (date, cs) ← Calendar.date? cs
  let cs ← Calendar.literal? 'T' cs
  Calendar.complete? (Calendar.clock? date cs)

/-- A clock behind a space. -/
def DateTime.ofSpacedText? (cs : List Char) : Option DateTime := do
  let (date, cs) ← Calendar.date? cs
  Calendar.complete? (Calendar.clock? date (trimStart cs))

def DateTime.ofText? (cs : List Char) : Option DateTime :=
  (DateTime.ofMarkedText? cs).or (DateTime.ofSpacedText? cs)

end RowPolicy
