import RowPolicy.Number.Binary64
import RowPolicy.Calendar.Reading

/-!
# Values

What a row holds in a column, and what a condition compares it with. An absent column has no
value at all, so there is no null among the values.

`Value.compare?` is the order of two scalars: numbers with numbers, dates with date-times, and
otherwise kind with kind. Lists have no order to anything.
-/
namespace RowPolicy

inductive Value where
  | int (n : Int64)
  | float (x : Binary64)
  | bool (b : Bool)
  | date (d : Date)
  | dateTime (t : DateTime)
  | text (s : String)
  | list (items : List Value)

namespace Value

def isDate : Value → Bool
  | date _ => true
  | _ => false

def text? : Value → Option String
  | text s => some s
  | _ => none

/-- The day that a value denotes, if it denotes one. A text may spell a date or a date-time. -/
def toDate? : Value → Option Date
  | date d => some d
  | dateTime t => some t.date
  | text s => (Date.ofText? s.toList).or ((DateTime.ofText? s.toList).map DateTime.date)
  | _ => none

/-- An integer meets a double as the double nearest to it; a date meets a date-time as its
midnight. -/
def compare? : Value → Value → Option Ordering
  | int a, int b => some (compare a.toInt b.toInt)
  | float a, float b => Binary64.compare? a b
  | int a, float b => Binary64.compare? (.ofInt a.toInt) b
  | float a, int b => Binary64.compare? a (.ofInt b.toInt)
  | bool a, bool b => some (compare a b)
  | text a, text b => some (compare a b)
  | date a, date b => some (a.compare b)
  | dateTime a, dateTime b => some (a.compare b)
  | date a, dateTime b => some ((DateTime.midnight a).compare b)
  | dateTime a, date b => some (a.compare (DateTime.midnight b))
  | _, _ => none

mutual

/-- Same kind and same content. Doubles are the same when they are equal as numbers. -/
def same : Value → Value → Bool
  | int a, int b => a == b
  | float a, float b => Binary64.compare? a b == some .eq
  | bool a, bool b => a == b
  | date a, date b => decide (a = b)
  | dateTime a, dateTime b => decide (a = b)
  | text a, text b => a == b
  | list a, list b => sameItems a b
  | _, _ => false

def sameItems : List Value → List Value → Bool
  | [], [] => true
  | a :: as, b :: bs => same a b && sameItems as bs
  | _, _ => false

end

end Value

end RowPolicy
