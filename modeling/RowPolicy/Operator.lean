/-!
# Operators

How a condition compares a column with its value. A rule names an operator by its token: a word,
or for the six comparisons also a symbol.
-/
namespace RowPolicy

inductive Operator where
  | eq
  | notEq
  | gt
  | gteq
  | lt
  | lteq
  | isIn
  | notIn
  | eqAny
  | isLike
  | notLike
  deriving DecidableEq, Repr

namespace Operator

def all : List Operator :=
  [eq, notEq, gt, gteq, lt, lteq, isIn, notIn, eqAny, isLike, notLike]

def token : Operator → String
  | eq => "eq"
  | notEq => "not_eq"
  | gt => "gt"
  | gteq => "gteq"
  | lt => "lt"
  | lteq => "lteq"
  | isIn => "in"
  | notIn => "not_in"
  | eqAny => "eq_any"
  | isLike => "matches"
  | notLike => "does_not_match"

def symbol? : Operator → Option String
  | eq => some "=="
  | notEq => some "!="
  | gt => some ">"
  | gteq => some ">="
  | lt => some "<"
  | lteq => some "<="
  | _ => none

def ofToken? (token : String) : Option Operator :=
  all.find? fun op => op.token == token || op.symbol? == some token

/-- Operators that take a list of values. -/
def isMembership : Operator → Bool
  | isIn | notIn | eqAny => true
  | _ => false

/-- Operators that take a wildcard pattern. -/
def isPattern : Operator → Bool
  | isLike | notLike => true
  | _ => false

def sql : Operator → String
  | eq | eqAny => "="
  | notEq => "!="
  | gt => ">"
  | gteq => ">="
  | lt => "<"
  | lteq => "<="
  | isIn => "IN"
  | notIn => "NOT IN"
  | isLike => "ILIKE"
  | notLike => "NOT ILIKE"

theorem mem_all (op : Operator) : op ∈ all := by cases op <;> decide

theorem ofToken?_token (op : Operator) : ofToken? op.token = some op := by cases op <;> decide

theorem ofToken?_symbol {op : Operator} {s : String} (h : op.symbol? = some s) :
    ofToken? s = some op := by
  cases op <;> cases h <;> decide

end Operator

end RowPolicy
