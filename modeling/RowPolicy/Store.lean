import RowPolicy.AccessCheck
import RowPolicy.Predicate.Evaluation

/-!
# Stores of rows

A store keeps the rows of each table in the order in which they came and answers queries with the
rows that pass. An extra filter has to name a column of the resource, unless the rules let no row
pass anyway.
-/
namespace RowPolicy

structure Store where
  tables : Std.TreeMap String (List Row)

namespace Store

def empty : Store := ⟨∅⟩

def rows (s : Store) (table : String) : List Row := s.tables.getD table []

/-- Add rows behind those that a table has. -/
def append (s : Store) (table : String) (rows : List Row) : Store :=
  ⟨s.tables.insert table (s.rows table ++ rows)⟩

end Store

namespace Query

/-- An extra filter as a leaf: equal to a value, or among the items of a list. -/
def extraLeaf (r : Resource) (column : String) (value : Value) : Except SchemaError Predicate :=
  match r.column column with
  | .error e => .error e
  | .ok ref =>
    match value with
    | .list items => .ok (.membership ref .isIn items)
    | value => .ok (.compare ref .eq value)

/-- The leaves of the extra filters, or the first error. -/
def extraLeaves (r : Resource) : List (String × Value) → Except SchemaError (List Predicate)
  | [] => .ok []
  | (column, value) :: extras =>
    match extraLeaf r column value with
    | .error e => .error e
    | .ok p =>
      match extraLeaves r extras with
      | .error e => .error e
      | .ok ps => .ok (p :: ps)

/-- The filter together with the extra filters. -/
def merged (q : Query) : Except SchemaError Predicate :=
  match extraLeaves q.resource q.extras with
  | .error e => .error e
  | .ok [] => .ok q.filter
  | .ok (p :: ps) => .ok (q.filter.and (ps.foldl .and p))

end Query

/-- The rows that pass, in the order of the table. -/
def Store.execute (s : Store) (q : Query) : Except SchemaError (List Row) :=
  if q.filter.isNothing then .ok []
  else
    match q.merged with
    | .error e => .error e
    | .ok p => .ok ((s.rows q.resource.table).filter p.passes)

/-- The rows that an access check lets through. -/
def AccessCheck.visibleRows (c : AccessCheck) (catalog : Catalog) (s : Store) :
    Except (CheckError SchemaError) (List Row) :=
  c.run catalog s.execute

end RowPolicy
