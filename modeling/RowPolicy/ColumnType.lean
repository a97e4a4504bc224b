import RowPolicy.Value

/-!
# Column types

A column's type says how a text is read that stands for one of its values. A text that does not
read as the type stays a text, and all other values stay what they are.
-/
namespace RowPolicy

inductive ColumnType where
  | integer
  | float
  | boolean
  | text
  | date
  | timestamp
  deriving DecidableEq, Repr

namespace ColumnType

/-- Columns whose values are points in time. -/
def isTemporal : ColumnType → Bool
  | date | timestamp => true
  | _ => false

/-- A truth word, in any case. -/
def boolean? (cs : List Char) : Option Bool :=
  if Numeral.isWord "true" cs then some true
  else if Numeral.isWord "false" cs then some false
  else none

/-- A text read as a value of the type. A timestamp may be a date-time or a plain date. -/
def read? (type : ColumnType) (cs : List Char) : Option Value :=
  match type with
  | integer => (Numeral.int64? cs).map .int
  | float => (Numeral.binary64? cs).map .float
  | boolean => (boolean? cs).map .bool
  | text => none
  | date => (Date.ofText? cs).map .date
  | timestamp => ((DateTime.ofText? cs).map Value.dateTime).or ((Date.ofText? cs).map Value.date)

def coerce (type : ColumnType) : Value → Value
  | .text s => (type.read? s.toList).getD (.text s)
  | v => v

@[simp] theorem coerce_text_type (v : Value) : text.coerce v = v := by
  cases v <;> rfl

end ColumnType

end RowPolicy
