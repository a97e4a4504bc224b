import RowPolicy.Predicate
import RowPolicy.Row
import RowPolicy.Truth
import RowPolicy.Text.Casing
import RowPolicy.Text.Wildcard

/-!
# Filters on rows

`Predicate.eval` is the truth of a filter on a row. An absent column leaves a comparison unknown,
and so does a value of another kind. A row passes a filter that is known to be true on it.

Being among values is a disjunction of equalities. Being among no values is unknown, so that a
rule with an empty list lets no row pass, negated or not.
-/
namespace RowPolicy

namespace Operator

/-- What a comparison says about an order. -/
def admits : Operator → Ordering → Bool
  | eq, o => o == .eq
  | notEq, o => o != .eq
  | gt, o => o == .gt
  | gteq, o => o != .lt
  | lt, o => o == .lt
  | lteq, o => o != .gt
  | _, _ => false

end Operator

namespace Value

/-- Whether a text fits a pattern, without regard to case. -/
def like (actual pattern : Value) : Truth :=
  match actual, pattern with
  | text s, text p =>
    .ofBool (Wildcard.fits (Casing.lower p.toList) (Casing.lower s.toList))
  | _, _ => .unknown

def compareBy (op : Operator) (actual expected : Value) : Truth :=
  match op with
  | .isLike => like actual expected
  | .notLike => (like actual expected).not
  | .isIn | .notIn | .eqAny => .unknown
  | op =>
    match compare? actual expected with
    | some o => .ofBool (op.admits o)
    | none => .unknown

/-- Whether the value equals one of the items. The search ends where one is found. -/
def amongItems (actual : Value) : List Value → Truth
  | [] => .no
  | v :: vs =>
    match compareBy .eq actual v with
    | .yes => .yes
    | found => found.or (amongItems actual vs)

def among (op : Operator) (actual : Value) (items : List Value) : Truth :=
  if items.isEmpty then .unknown
  else match op with
    | .notIn => (amongItems actual items).not
    | _ => amongItems actual items

/-- A comparison leaf: a membership operator takes the items of a list. -/
def meets (op : Operator) (actual expected : Value) : Truth :=
  match expected with
  | list items => if op.isMembership then among op actual items else compareBy op actual expected
  | _ => compareBy op actual expected

end Value

namespace Column

/-- The value that a row has for the column. As a date it may have none although it is set. -/
def read? (c : Column) (row : Row) : Option Value :=
  (row.get? c.name).bind fun v => if c.asDate then v.toDate?.map .date else some v

end Column

namespace Predicate

def eval (row : Row) : Predicate → Truth
  | all => .yes
  | nothing => .no
  | alwaysTrue => .yes
  | compare column op value =>
    match column.read? row with
    | some actual => Value.meets op actual value
    | none => .unknown
  | membership column op values =>
    match column.read? row with
    | some actual => Value.among op actual values
    | none => .unknown
  | and a b =>
    match eval row a with
    | .no => .no
    | left => left.and (eval row b)
  | or a b =>
    match eval row a with
    | .yes => .yes
    | left => left.or (eval row b)
  | not a => (eval row a).not
  | group a => eval row a

def passes (p : Predicate) (row : Row) : Bool := (p.eval row).holds

@[simp] theorem eval_all (row : Row) : eval row all = .yes := rfl
@[simp] theorem eval_nothing (row : Row) : eval row nothing = .no := rfl
@[simp] theorem eval_alwaysTrue (row : Row) : eval row alwaysTrue = .yes := rfl
@[simp] theorem eval_not (row : Row) (a : Predicate) : eval row (not a) = (eval row a).not := rfl
@[simp] theorem eval_group (row : Row) (a : Predicate) : eval row (group a) = eval row a := rfl

/-- Leaving out the right operand never changes the truth. -/
@[simp] theorem eval_and (row : Row) (a b : Predicate) :
    eval row (and a b) = (eval row a).and (eval row b) := by
  simp only [eval]; cases eval row a <;> rfl

@[simp] theorem eval_or (row : Row) (a b : Predicate) :
    eval row (or a b) = (eval row a).or (eval row b) := by
  simp only [eval]; cases eval row a <;> rfl

end Predicate

end RowPolicy
