import Std.Data.TreeMap
import RowPolicy.Value

/-!
# Rows

A row gives values to columns by name. Setting a column again replaces its value; a column that
was never set is absent. The columns of a row are listed in the order of their names.
-/
namespace RowPolicy

structure Row where
  values : Std.TreeMap String Value

namespace Row

def empty : Row := ⟨∅⟩

def set (row : Row) (column : String) (value : Value) : Row := ⟨row.values.insert column value⟩

/-- Later pairs replace earlier ones. -/
def ofList (pairs : List (String × Value)) : Row :=
  pairs.foldl (fun row (column, value) => row.set column value) empty

def get? (row : Row) (column : String) : Option Value := row.values[column]?

def size (row : Row) : Nat := row.values.size

def isEmpty (row : Row) : Bool := row.values.isEmpty

/-- Columns with their values, by name. -/
def toList (row : Row) : List (String × Value) := row.values.toList

@[simp] theorem get?_empty (column : String) : empty.get? column = none := by
  simp [empty, get?]

theorem get?_set (row : Row) (c d : String) (v : Value) :
    (row.set c v).get? d = if c = d then some v else row.get? d := by
  simp [set, get?, Std.TreeMap.getElem?_insert]

theorem toList_pairwise (row : Row) :
    row.toList.Pairwise fun a b => compare a.1 b.1 = .lt :=
  Std.TreeMap.ordered_keys_toList

end Row

end RowPolicy
