/-!
# Truth values

A condition on a row is true, false or unknown: a row may lack the column that the condition
reads. `Truth` is the strong Kleene algebra of these three values. A connective is definite as
soon as its known operands decide it.
-/
namespace RowPolicy

inductive Truth where
  | no
  | unknown
  | yes
  deriving DecidableEq, Repr

namespace Truth

def ofBool (b : Bool) : Truth := if b then yes else no

/-- Whether the value is known to be true: only then does a filter let a row pass. -/
def holds (t : Truth) : Bool := t == yes

protected def not : Truth → Truth
  | no => yes
  | unknown => unknown
  | yes => no

/-- Known to be false as soon as one operand is. -/
protected def and : Truth → Truth → Truth
  | no, _ => no
  | yes, b => b
  | unknown, no => no
  | unknown, _ => unknown

/-- Known to be true as soon as one operand is. -/
protected def or : Truth → Truth → Truth
  | yes, _ => yes
  | no, b => b
  | unknown, yes => yes
  | unknown, _ => unknown

/-- The disjunction of a list; nothing in it is true when it is empty. -/
def any : List Truth → Truth
  | [] => no
  | t :: ts => t.or (any ts)

/-- The conjunction of a list; all of it is true when it is empty. -/
def all : List Truth → Truth
  | [] => yes
  | t :: ts => t.and (all ts)

@[simp] theorem ofBool_true : ofBool true = yes := rfl
@[simp] theorem ofBool_false : ofBool false = no := rfl

@[simp] theorem holds_iff (t : Truth) : t.holds = true ↔ t = yes := by cases t <;> decide

@[simp] theorem not_ofBool (b : Bool) : (ofBool b).not = ofBool !b := by cases b <;> rfl
@[simp] theorem not_not (t : Truth) : t.not.not = t := by cases t <;> rfl

@[simp] theorem no_and (t : Truth) : no.and t = no := rfl
@[simp] theorem yes_and (t : Truth) : yes.and t = t := rfl
@[simp] theorem and_no (t : Truth) : t.and no = no := by cases t <;> rfl
@[simp] theorem and_yes (t : Truth) : t.and yes = t := by cases t <;> rfl
@[simp] theorem no_or (t : Truth) : no.or t = t := rfl
@[simp] theorem yes_or (t : Truth) : yes.or t = yes := rfl
@[simp] theorem or_no (t : Truth) : t.or no = t := by cases t <;> rfl
@[simp] theorem or_yes (t : Truth) : t.or yes = yes := by cases t <;> rfl

theorem and_comm (a b : Truth) : a.and b = b.and a := by cases a <;> cases b <;> rfl
theorem or_comm (a b : Truth) : a.or b = b.or a := by cases a <;> cases b <;> rfl

theorem and_assoc (a b c : Truth) : (a.and b).and c = a.and (b.and c) := by
  cases a <;> cases b <;> cases c <;> rfl

theorem or_assoc (a b c : Truth) : (a.or b).or c = a.or (b.or c) := by
  cases a <;> cases b <;> cases c <;> rfl

theorem not_and (a b : Truth) : (a.and b).not = a.not.or b.not := by
  cases a <;> cases b <;> rfl

theorem not_or (a b : Truth) : (a.or b).not = a.not.and b.not := by
  cases a <;> cases b <;> rfl

theorem all_append (ts us : List Truth) : all (ts ++ us) = (all ts).and (all us) := by
  induction ts with
  | nil => rfl
  | cons t ts ih => simp [all, ih, and_assoc]

theorem any_append (ts us : List Truth) : any (ts ++ us) = (any ts).or (any us) := by
  induction ts with
  | nil => rfl
  | cons t ts ih => simp [any, ih, or_assoc]

theorem not_any (ts : List Truth) : (any ts).not = all (ts.map Truth.not) := by
  induction ts with
  | nil => rfl
  | cons t ts ih => simp [any, all, not_or, ih]

end Truth

end RowPolicy
