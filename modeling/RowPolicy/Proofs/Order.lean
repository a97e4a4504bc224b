import RowPolicy.Proofs.Complement
import RowPolicy.Proofs.Equality
import RowPolicy.Proofs.Number.Conversion

/-!
# The order of values

Every scalar but the double that is no number has a position on a scale: numbers by the doubles that
they become, days by their midnights. Two values have an order if they are on the same scale, and
then it is the order of their positions. Only two integers are compared more closely, as themselves.

The main statement is `Value.compareBy_coherent`: the six comparisons of two values are all open, or
one of less, equal and greater is known to be true and the others follow from it.
-/
namespace RowPolicy

/-! ## Positions -/

/-- Where a value stands on the scale that it is compared on. -/
inductive Position where
  | number (place : Int)
  | truth (b : Bool)
  | text (s : String)
  | time (index : Int)

namespace Position

/-- Positions on different scales have no order. -/
def compare? : Position → Position → Option Ordering
  | number x, number y => some (compare x y)
  | truth x, truth y => some (compare x y)
  | text x, text y => some (compare x y)
  | time x, time y => some (compare x y)
  | _, _ => none

theorem compare?_self (p : Position) : p.compare? p = some .eq := by
  cases p <;> exact congrArg some Std.ReflOrd.compare_self

theorem compare?_swap (p q : Position) : q.compare? p = (p.compare? q).map Ordering.swap := by
  cases p <;> cases q <;> first | rfl | exact congrArg some Std.OrientedOrd.eq_swap

end Position

theorem DateTime.index_midnight (d : Date) : (midnight d).index = d.index * 172800000000000 := by
  simp only [index, midnight]
  omega

/-- Days are in the order of their midnights. -/
theorem Date.compare_eq_midnights (d e : Date) :
    d.compare e = (DateTime.midnight d).compare (.midnight e) := by
  simp only [Date.compare, DateTime.compare, DateTime.index_midnight]
  simp [compare, compareOfLessAndEq]

namespace Value

/-- A double that is no number has no position. -/
def position? : Value → Option Position
  | int n => some (.number (Binary64.ofInt n.toInt).place)
  | float x => if x.isNaN then none else some (.number x.place)
  | bool b => some (.truth b)
  | date d => some (.time (DateTime.midnight d).index)
  | dateTime t => some (.time t.index)
  | text s => some (.text s)
  | list _ => none

/-- Two integers are compared as such. -/
def AreInts (a b : Value) : Prop := ∃ m n, a = int m ∧ b = int n

/-- Scalars that are compared at all. -/
def hasOrder : Value → Bool
  | float x => !x.isNaN
  | list _ => false
  | _ => true

variable {a b : Value}

theorem AreInts.symm (h : AreInts a b) : AreInts b a := by
  obtain ⟨m, n, ha, hb⟩ := h
  exact ⟨n, m, hb, ha⟩

theorem position?_int (n : Int64) : (int n).position? = (float (.ofInt n.toInt)).position? := by
  simp [position?, Binary64.isNaN_ofInt]

theorem compare?_float_eq_positions (x y : Binary64) :
    x.compare? y = (float x).position?.bind fun p => (float y).position?.bind p.compare? := by
  cases hx : x.isNaN <;> cases hy : y.isNaN <;>
    simp [Binary64.compare?, position?, Position.compare?, hx, hy]

/-- All values but two integers are compared by their positions. -/
theorem compare?_eq_positions (h : ¬AreInts a b) :
    a.compare? b = a.position?.bind fun p => b.position?.bind p.compare? := by
  cases a <;> cases b
  case int.int m n => exact absurd ⟨m, n, rfl, rfl⟩ h
  case int.float m y =>
    rw [position?_int]
    exact compare?_float_eq_positions _ y
  case float.int x n =>
    rw [position?_int]
    exact compare?_float_eq_positions x _
  case float.float x y => exact compare?_float_eq_positions x y
  case date.date d e => exact congrArg some (Date.compare_eq_midnights d e)
  -- What is left are one scale and the same comparison on it, or two scales.
  all_goals first
    | rfl
    | simp only [position?]; split <;> rfl

theorem position?_eq_none_iff : a.position? = none ↔ a.hasOrder = false := by
  cases a <;> simp [position?, hasOrder]

/-- To look at two values in the other order turns the answer around. -/
theorem compare?_swap (a b : Value) : b.compare? a = (a.compare? b).map Ordering.swap := by
  by_cases h : AreInts a b
  · obtain ⟨m, n, rfl, rfl⟩ := h
    exact congrArg some Std.OrientedOrd.eq_swap
  · rw [compare?_eq_positions h, compare?_eq_positions (mt AreInts.symm h)]
    cases a.position? <;> cases b.position? <;> first | rfl | exact Position.compare?_swap _ _

theorem compare?_self (h : a.hasOrder = true) : a.compare? a = some .eq := by
  by_cases hints : AreInts a a
  · obtain ⟨m, -, rfl, -⟩ := hints
    exact congrArg some Std.ReflOrd.compare_self
  · rw [compare?_eq_positions hints]
    cases hp : a.position? with
    | none =>
      rw [position?_eq_none_iff, h] at hp
      cases hp
    | some p => exact p.compare?_self

theorem compare?_eq_none (h : a.hasOrder = false ∨ b.hasOrder = false) : a.compare? b = none := by
  have hints : ¬AreInts a b := by
    rintro ⟨m, n, rfl, rfl⟩
    simp [hasOrder] at h
  rw [← position?_eq_none_iff, ← position?_eq_none_iff] at h
  rw [compare?_eq_positions hints]
  rcases h with h | h
  · rw [h, Option.bind_none]
  · cases a.position? <;> simp [h]

end Value

/-! ## The six comparisons -/

namespace Operator

/-- The operators that ask for the order of two values. -/
def comparisons : List Operator := [eq, notEq, gt, gteq, lt, lteq]

theorem mem_comparisons_iff {op : Operator} :
    op ∈ comparisons ↔ op.isMembership = false ∧ op.isPattern = false := by
  cases op <;> decide

/-- The operator that says the same of two values in the other order. -/
def mirrored : Operator → Operator
  | gt => lt
  | gteq => lteq
  | lt => gt
  | lteq => gteq
  | op => op

theorem admits_mirrored (op : Operator) (o : Ordering) :
    op.mirrored.admits o.swap = op.admits o := by
  cases op <;> cases o <;> rfl

theorem mirrored_mem_comparisons {op : Operator} (h : op ∈ comparisons) :
    op.mirrored ∈ comparisons := by
  revert op
  decide

end Operator

namespace Value

open Operator (comparisons)

variable {a b : Value} {op : Operator}

theorem compareBy_comparison (h : op ∈ comparisons) (a b : Value) :
    compareBy op a b =
      match a.compare? b with
      | some o => .ofBool (op.admits o)
      | none => .unknown := by
  cases op <;> first | rfl | simp [comparisons] at h

theorem compareBy_mirrored (h : op ∈ comparisons) (a b : Value) :
    compareBy op.mirrored b a = compareBy op a b := by
  rw [compareBy_comparison h, compareBy_comparison (Operator.mirrored_mem_comparisons h),
    compare?_swap]
  cases a.compare? b with
  | none => rfl
  | some o => exact congrArg Truth.ofBool (op.admits_mirrored o)

theorem compareBy_eq_unknown (h : a.compare? b = none) (hop : op ∈ comparisons) :
    compareBy op a b = .unknown := by
  rw [compareBy_comparison hop, h]

/-- Of less, equal and greater the order of two values is one. -/
theorem exists_compareBy_yes {o : Ordering} (h : a.compare? b = some o) :
    ∃ op ∈ [Operator.eq, .lt, .gt], ∀ op' ∈ [Operator.eq, .lt, .gt],
      compareBy op' a b = .ofBool (op' = op) := by
  cases o with
  | eq => exact ⟨.eq, by simp, by simp [compareBy, h, Operator.admits]⟩
  | lt => exact ⟨.lt, by simp, by simp [compareBy, h, Operator.admits]⟩
  | gt => exact ⟨.gt, by simp, by simp [compareBy, h, Operator.admits]⟩

/-- Two values are comparable or not, for all six comparisons and in both orders. Where they are,
one of less, equal and greater holds, and the other comparisons are complements of these. To swap
the values mirrors the comparison. A value that has an order at all is equal to itself, and one that
has none leaves everything open. -/
theorem compareBy_coherent (a b : Value) :
    ((∀ op ∈ comparisons, compareBy op a b = .unknown ∧ compareBy op b a = .unknown) ∨
      (∃ op ∈ [Operator.eq, .lt, .gt], ∀ op' ∈ [Operator.eq, .lt, .gt],
        compareBy op' a b = .ofBool (op' = op)) ∧
      compareBy .notEq a b = (compareBy .eq a b).not ∧
      compareBy .gteq a b = (compareBy .lt a b).not ∧
      compareBy .lteq a b = (compareBy .gt a b).not) ∧
    (∀ op ∈ comparisons, compareBy op.mirrored b a = compareBy op a b) ∧
    (a.hasOrder = true → compareBy .eq a a = .yes) ∧
    (a.hasOrder = false ∨ b.hasOrder = false →
      ∀ op ∈ comparisons, compareBy op a b = .unknown) := by
  refine ⟨?_, fun op hop => compareBy_mirrored hop a b, fun h => ?_, fun h op hop => ?_⟩
  · cases h : a.compare? b with
    | none =>
      have hswap : b.compare? a = none := by rw [compare?_swap, h, Option.map_none]
      exact .inl fun op hop => ⟨compareBy_eq_unknown h hop, compareBy_eq_unknown hswap hop⟩
    | some o =>
      exact .inr ⟨exists_compareBy_yes h, (not_compareBy .eq a b).symm,
        (not_compareBy (.symm .gteq) a b).symm, (not_compareBy .gt a b).symm⟩
  · rw [compareBy_eq_yes_iff, equals, compare?_self h]
    rfl
  · exact compareBy_eq_unknown (compare?_eq_none h) hop

/-- A leap second is before the midnight that follows it, and what is no number has no order even to
itself. -/
theorem compareBy_coherent_leap :
    let day : Date := ⟨2016, 12, 31, by decide, by decide, by decide⟩
    let next : Date := ⟨2017, 1, 1, by decide, by decide, by decide⟩
    let leap : DateTime := ⟨day, 23, 59, 59, 1999999999, by decide, by decide, by decide, by decide⟩
    compareBy .gt (date next) (dateTime leap) = .yes ∧
      compareBy .lteq (dateTime leap) (date next) = .yes ∧
      compareBy .eq (dateTime leap) (dateTime leap) = .yes ∧
      ∀ op ∈ comparisons, compareBy op (float .nan) (float .nan) = .unknown := by
  intro day next leap
  have hlt : compareBy .lt (dateTime leap) (date next) = .yes := by decide
  obtain ⟨-, hmirrored, hself, -⟩ := compareBy_coherent (dateTime leap) (date next)
  obtain ⟨-, -, -, hopen⟩ := compareBy_coherent (float .nan) (float .nan)
  refine ⟨(hmirrored .lt (by decide)).trans hlt, ?_, hself rfl, hopen (.inl rfl)⟩
  rw [← hmirrored .lteq (by decide)]
  decide

end Value

end RowPolicy
