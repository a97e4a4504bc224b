import RowPolicy.Operator
import RowPolicy.Resource

/-!
# Filters

A filter over the rows of a resource, as a tree. `all` and `nothing` are what a role alone can
decide; `alwaysTrue` is a rule without conditions. The leaves compare a column with a value or ask
whether it is among values. Grouping is kept, since it is written as parentheses.
-/
namespace RowPolicy

inductive Predicate where
  | all
  | nothing
  | alwaysTrue
  | compare (column : Column) (op : Operator) (value : Value)
  | membership (column : Column) (op : Operator) (values : List Value)
  | and (a b : Predicate)
  | or (a b : Predicate)
  | not (a : Predicate)
  | group (a : Predicate)

namespace Predicate

def isNothing : Predicate → Bool
  | nothing => true
  | _ => false

def isAlwaysTrue : Predicate → Bool
  | alwaysTrue => true
  | _ => false

def isOr : Predicate → Bool
  | or _ _ => true
  | _ => false

def isGroup : Predicate → Bool
  | group _ => true
  | _ => false

end Predicate

end RowPolicy
