import RowPolicy.Policy
import RowPolicy.Predicate
import RowPolicy.Text.Delimited

/-!
# From rules to a filter

`Policy.filter` turns the rules of one resource into a filter. Each rule becomes the conjunction of
its conditions, negated if the rule denies; the filter is the disjunction of the rules. Rules that
allow every row are left out, and where no other rule is left there is no restriction.

A condition on a column that the resource lacks, or with a token that names no operator, is an
error; the first one in the order of the rules is reported.
-/
namespace RowPolicy

namespace Condition

/-- The value in the shape that its operator takes: a list for a membership operator. A text is
split at its separators, and any other scalar is no list of anything. -/
def normalized (op : Operator) (value : Value) : Value :=
  if op.isMembership then
    match value with
    | .list items => .list items
    | .text s => .list ((Delimited.elements s.toList).map fun cs => .text (String.ofList cs))
    | _ => .list []
  else value

/-- In a column of time a text is read as a time, except for a pattern. -/
def aligned (type : ColumnType) (op : Operator) (value : Value) : Value :=
  if type.isTemporal && !op.isPattern then type.coerce value else value

/-- The leaf for a condition on a column of the given type. A plain date is compared with the day
of what the column holds. -/
def leafOf (table column : String) (type : ColumnType) (op : Operator) (value : Value) :
    Predicate :=
  let value := aligned type op (normalized op value)
  let ref : Column := ⟨table, column, value.isDate⟩
  match value with
  | .list items =>
    if op.isMembership then .membership ref op (items.map type.coerce)
    else .compare ref op value
  | _ => .compare ref op value

def leaf (r : Resource) (c : Condition) : Except SchemaError Predicate :=
  match r.columnType? c.column with
  | none => .error (.unknownColumn r.name c.column)
  | some type =>
    match Operator.ofToken? c.predicate with
    | none => .error (.unknownOperator c.column c.predicate)
    | some op => .ok (leafOf r.table c.column type op c.value)

/-- All leaves, or the first error. -/
def leaves (r : Resource) : List Condition → Except SchemaError (List Predicate)
  | [] => .ok []
  | c :: cs =>
    match c.leaf r with
    | .error e => .error e
    | .ok p =>
      match leaves r cs with
      | .error e => .error e
      | .ok ps => .ok (p :: ps)

end Condition

namespace Policy

/-- The conjunction of some leaves; without any it is always true. -/
def conjunction : List Predicate → Predicate
  | [] => .alwaysTrue
  | p :: ps => .group (ps.foldl .and p)

def clauseOf (effect : Effect) (leaves : List Predicate) : Predicate :=
  match effect with
  | .allow => conjunction leaves
  | .deny => .not (conjunction leaves)

def clause (r : Resource) (p : Policy) : Except SchemaError Predicate :=
  match Condition.leaves r p.conditions with
  | .error e => .error e
  | .ok leaves => .ok (clauseOf p.effect leaves)

/-- The clauses of some rules, or the first error. -/
def clauses (r : Resource) : List Policy → Except SchemaError (List Predicate)
  | [] => .ok []
  | p :: ps =>
    match p.clause r with
    | .error e => .error e
    | .ok q =>
      match clauses r ps with
      | .error e => .error e
      | .ok qs => .ok (q :: qs)

/-- The disjunction of some clauses; without any there is no restriction. -/
def union : List Predicate → Predicate
  | [] => .all
  | p :: ps => ps.foldl .or p

/-- The filter for a role and the rules that apply to it. -/
def filter (r : Resource) (role : Role) (policies : List Policy) :
    Except SchemaError Predicate :=
  match role, policies with
  | .admin, _ => .ok .all
  | .client, [] => .ok .nothing
  | _, policies =>
    match clauses r policies with
    | .error e => .error e
    | .ok clauses => .ok (union (clauses.filter (!·.isAlwaysTrue)))

end Policy

end RowPolicy
