import RowPolicy.Predicate
import RowPolicy.Value.Literal

/-!
# Filters as SQL

A filter is written as the condition of a query. Parentheses stand around groups, around an
alternative inside a conjunction and around what is negated, so the text has the structure of the
tree under the usual precedence. A list with no values is written as one that holds only NULL,
since SQL has no empty list.
-/
namespace RowPolicy.Predicate

def parenthesized (s : String) : String := "(" ++ s ++ ")"

/-- The equalities that a column's values stand for, as alternatives. -/
def equalitiesSql (column : Column) (values : List Value) : String :=
  " OR ".intercalate (values.map fun v => column.sql ++ " = " ++ v.literal)

def membershipSql (column : Column) (op : Operator) (values : List Value) : String :=
  if values.isEmpty then
    column.sql ++ (if op = .notIn then " NOT IN" else " IN") ++ " (NULL)"
  else if op = .eqAny then parenthesized (equalitiesSql column values)
  else column.sql ++ " " ++ op.sql ++ " " ++ (Value.list values).literal

def sql : Predicate → String
  | all => "1=1"
  | nothing => "1=0"
  | alwaysTrue => "TRUE"
  | compare column op value => column.sql ++ " " ++ op.sql ++ " " ++ value.literal
  | membership column op values => membershipSql column op values
  | and a b =>
    let operand (p : Predicate) (s : String) := if p.isOr then parenthesized s else s
    operand a a.sql ++ " AND " ++ operand b b.sql
  | or a b => a.sql ++ " OR " ++ b.sql
  | not a => "NOT " ++ (if a.isGroup then a.sql else parenthesized a.sql)
  | group a => parenthesized a.sql

end RowPolicy.Predicate
