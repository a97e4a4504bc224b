import Std.Data.TreeMap
import RowPolicy.ColumnType

/-!
# Resources

A resource is what rules speak of: a table under its own or another name, and typed columns in
the order in which they were added. An index gives each column's place by its name. Adding a
column again gives it a new type and leaves its place.
-/
namespace RowPolicy

/-- A column as it stands in a filter, perhaps seen as the day of its value. -/
structure Column where
  table : String
  name : String
  asDate : Bool
  deriving DecidableEq

namespace Column

def sql (c : Column) : String :=
  let plain := c.table ++ "." ++ c.name
  if c.asDate then "CAST(" ++ plain ++ " AS DATE)" else plain

end Column

/-- A condition or filter that does not fit its resource. -/
inductive SchemaError where
  | unknownColumn (resource column : String)
  | unknownOperator (column token : String)
  deriving DecidableEq, Repr

def SchemaError.message : SchemaError → String
  | unknownColumn resource column =>
    "unknown column '" ++ column ++ "' on resource '" ++ resource ++ "'"
  | unknownOperator column token =>
    "unknown predicate '" ++ token ++ "' on column '" ++ column ++ "'"

structure Resource where
  name : String
  table : String
  columns : Array (String × ColumnType)
  /-- The place of each column. -/
  index : Std.TreeMap String Nat

namespace Resource

/-- A resource without columns whose table has the resource's name. -/
def new (name : String) : Resource := ⟨name, name, #[], ∅⟩

def withTable (r : Resource) (table : String) : Resource := { r with table := table }

def withColumn (r : Resource) (name : String) (type : ColumnType) : Resource :=
  match r.index[name]? with
  | some place => { r with columns := r.columns.modify place fun (n, _) => (n, type) }
  | none =>
    { r with
      columns := r.columns.push (name, type)
      index := r.index.insert name r.columns.size }

def columnType? (r : Resource) (name : String) : Option ColumnType :=
  (r.index[name]?).bind fun place => (r.columns[place]?).map Prod.snd

def contains (r : Resource) (name : String) : Bool := r.index.contains name

def column (r : Resource) (name : String) : Except SchemaError Column :=
  if r.contains name then .ok ⟨r.table, name, false⟩
  else .error (.unknownColumn r.name name)

def size (r : Resource) : Nat := r.columns.size

def isEmpty (r : Resource) : Bool := r.columns.isEmpty

end Resource

end RowPolicy
