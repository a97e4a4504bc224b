import Mathlib.Data.List.Forall2
import RowPolicy.Compilation
import RowPolicy.Proofs.Equality

/-!
# Membership as a disjunction of equalities

A condition that a column is in a list against the conditions that it equals the items one by one.
Only a lone date is compared with the day of what the column holds. Hence the items of a list are
compared as they are, and the two ways part for times within a day of the list and for texts that
spell a day.

The main statement is `Condition.eval_membership`: membership is the disjunction of the equalities
with their casts taken off, and of the equalities themselves exactly where days and values decide
alike.
-/
namespace RowPolicy

namespace Predicate

/-- A comparison with the value of a column in place of its day. -/
def uncast : Predicate → Predicate
  | compare column op value => compare { column with asDate := false } op value
  | p => p

theorem eval_compare_eq (row : Row) (column : Column) (v : Value) :
    eval row (compare column .eq v) =
      match column.read? row with
      | some actual => Value.compareBy .eq actual v
      | none => .unknown := by
  rw [eval]
  cases column.read? row with
  | none => rfl
  | some actual => exact Value.meets_eq_compareBy rfl actual v

theorem eval_compare_byDay {row : Row} {table column : String} {stored v : Value}
    (h : row.get? column = some stored) :
    eval row (compare ⟨table, column, v.isDate⟩ .eq v) = stored.equalByDay v := by
  rw [eval_compare_eq]
  cases v with
  | date d =>
    cases hd : stored.toDate? with
    | none => simp [Column.read?, h, Value.isDate, Value.equalByDay, hd]
    | some e =>
      have hcompare : (e.compare d == .eq) = decide (e = d) := Date.compare_beq_eq e d
      simp [Column.read?, h, Value.isDate, Value.equalByDay, hd, Value.compareBy_eq,
        Value.compare?, hcompare]
  | _ => simp [Column.read?, h, Value.isDate, Value.equalByDay]

/-- Membership in a list with items is the disjunction of equalities of the stored value. -/
theorem eval_membership_eq_any {row : Row} {table column : String} {op : Operator}
    {vs : List Value} (hop : op = .isIn ∨ op = .eqAny) (hne : vs ≠ []) :
    eval row (membership ⟨table, column, false⟩ op vs) =
      match row.get? column with
      | some stored => Truth.any (vs.map (Value.compareBy .eq stored))
      | none => .unknown := by
  have hread : Column.read? ⟨table, column, false⟩ row = row.get? column := by
    simp [Column.read?]
  rw [eval, hread]
  cases row.get? column with
  | none => rfl
  | some stored => exact Value.among_eq_any hop hne stored

end Predicate

namespace Condition

variable {r : Resource} {column : String} {type : ColumnType}

theorem leaf_ofOperator (h : r.columnType? column = some type) (op : Operator) (v : Value) :
    (ofOperator column op v).leaf r = .ok (leafOf r.table column type op v) := by
  simp [leaf, ofOperator, h, Operator.ofToken?_token]

theorem coerce_settled {v : Value} (h : v.isSettled = true) (type : ColumnType) :
    type.coerce v = v := by
  cases v <;> first | rfl | cases h

theorem leafOf_settled {op : Operator} (hop : op.isMembership = false) {v : Value}
    (h : v.isSettled = true) (table column : String) (type : ColumnType) :
    leafOf table column type op v = .compare ⟨table, column, v.isDate⟩ op v := by
  have haligned : aligned type op (normalized op v) = v := by
    simp [aligned, normalized, hop, coerce_settled h]
  rw [leafOf, haligned]
  cases v with
  | list items => cases h
  | _ => rfl

theorem leaf_eq_settled (hcol : r.columnType? column = some type) {v : Value}
    (h : v.isSettled = true) :
    (ofOperator column .eq v).leaf r = .ok (.compare ⟨r.table, column, v.isDate⟩ .eq v) := by
  rw [leaf_ofOperator hcol, leafOf_settled rfl h]

theorem leaf_membership_settled (hcol : r.columnType? column = some type) {op : Operator}
    {vs : List Value} (hop : op = .isIn ∨ op = .eqAny) (settled : ∀ v ∈ vs, v.isSettled = true) :
    (ofOperator column op (.list vs)).leaf r =
      .ok (.membership ⟨r.table, column, false⟩ op vs) := by
  have hcoerce : vs.map type.coerce = vs :=
    (List.map_congr_left fun v hv => coerce_settled (settled v hv) type).trans (List.map_id vs)
  have haligned : aligned type op (normalized op (.list vs)) = .list vs := by
    rcases hop with rfl | rfl <;> simp [aligned, normalized, Operator.isMembership,
      ColumnType.coerce]
  rw [leaf_ofOperator hcol, leafOf, haligned]
  rcases hop with rfl | rfl <;> simp [Operator.isMembership, Value.isDate, hcoerce]

/-- Membership decides by the stored value, and so does each equality once its cast is off. With
the casts on, the disjunction differs exactly for a stored value whose day and itself decide
differently. -/
theorem eval_membership (hcol : r.columnType? column = some type) {op : Operator}
    (hop : op = .isIn ∨ op = .eqAny) {vs : List Value} (hne : vs ≠ [])
    (settled : ∀ v ∈ vs, v.isSettled = true) :
    ∃ p qs, (ofOperator column op (.list vs)).leaf r = .ok p ∧
      List.Forall₂ (fun v q => (ofOperator column .eq v).leaf r = .ok q) vs qs ∧
      ∀ row, p.eval row = Truth.any (qs.map fun q => q.uncast.eval row) ∧
        (p.eval row = Truth.any (qs.map (Predicate.eval row)) ↔
          ∀ stored, row.get? column = some stored → ¬ stored.DiffersByDay vs) := by
  refine ⟨.membership ⟨r.table, column, false⟩ op vs,
    vs.map fun v => .compare ⟨r.table, column, v.isDate⟩ .eq v,
    leaf_membership_settled hcol hop settled, ?_, fun row => ?_⟩
  · rw [List.forall₂_map_right_iff, List.forall₂_same]
    exact fun v hv => leaf_eq_settled hcol (settled v hv)
  · rw [Predicate.eval_membership_eq_any hop hne, List.map_map, List.map_map]
    cases hrow : row.get? column with
    | none =>
      have hunknown (v : Value) :
          Predicate.eval row (.compare ⟨r.table, column, v.isDate⟩ .eq v) = .unknown := by
        simp [Predicate.eval_compare_eq, Column.read?, hrow]
      have huncast (v : Value) :
          (Predicate.compare ⟨r.table, column, v.isDate⟩ .eq v).uncast.eval row = .unknown := by
        simp [Predicate.uncast, Predicate.eval_compare_eq, Column.read?, hrow]
      simp only [Function.comp_def, hunknown, huncast, Truth.any_map_unknown hne, true_and,
        true_iff]
      rintro _ ⟨⟩
    | some stored =>
      have hday (v : Value) :
          Predicate.eval row (.compare ⟨r.table, column, v.isDate⟩ .eq v) = stored.equalByDay v :=
        Predicate.eval_compare_byDay hrow
      have huncast (v : Value) :
          (Predicate.compare ⟨r.table, column, v.isDate⟩ .eq v).uncast.eval row =
            Value.compareBy .eq stored v := by
        simp [Predicate.uncast, Predicate.eval_compare_eq, Column.read?, hrow]
      simp only [Function.comp_def, hday, huncast, Option.some_inj, forall_eq', true_and]
      exact Value.any_equalByDay_iff stored hne settled

/-- A time finds itself in a list, and so its day there makes no difference. -/
theorem eval_membership_itself :
    let r := (Resource.new "users").withColumn "created_on" .timestamp
    let day : Date := ⟨2021, 9, 1, by decide, by decide, by decide⟩
    let time : DateTime := ⟨day, 10, 0, 0, 0, by decide, by decide, by decide, by decide⟩
    let vs : List Value := [.date day, .int 7, .dateTime time]
    let row := Row.empty.set "created_on" (.dateTime time)
    ∃ p qs, (ofOperator "created_on" .isIn (.list vs)).leaf r = .ok p ∧
      List.Forall₂ (fun v q => (ofOperator "created_on" .eq v).leaf r = .ok q) vs qs ∧
      p.eval row = Truth.any (qs.map (Predicate.eval row)) := by
  intro r day time vs row
  have hcol : r.columnType? "created_on" = some .timestamp := rfl
  have settled : ∀ v ∈ vs, v.isSettled = true := by decide
  obtain ⟨p, qs, hp, hqs, h⟩ := eval_membership hcol (.inl rfl) (List.cons_ne_nil _ _) settled
  refine ⟨p, qs, hp, hqs, (h row).2.mpr fun stored hstored => ?_⟩
  obtain rfl : Value.dateTime time = stored := Option.some.inj hstored
  rintro ⟨-, hnone⟩
  exact absurd (hnone (.dateTime time) (by simp)) (by decide)

/-- A date in a list stands for its midnight only, but alone for the whole day. -/
theorem eval_membership_ne_any :
    ¬ ∀ (r : Resource) (column : String) (type : ColumnType) (vs : List Value) (row : Row)
      (p : Predicate) (qs : List Predicate),
      r.columnType? column = some type → vs ≠ [] → (∀ v ∈ vs, v.isSettled = true) →
      (ofOperator column .isIn (.list vs)).leaf r = .ok p →
      List.Forall₂ (fun v q => (ofOperator column .eq v).leaf r = .ok q) vs qs →
      p.eval row = Truth.any (qs.map (Predicate.eval row)) := by
  intro h
  let r := (Resource.new "users").withColumn "created_on" .timestamp
  let day : Date := ⟨2021, 9, 1, by decide, by decide, by decide⟩
  let time : DateTime := ⟨day, 10, 0, 0, 0, by decide, by decide, by decide, by decide⟩
  have hcol : r.columnType? "created_on" = some .timestamp := rfl
  have settled : ∀ v ∈ [Value.date day], v.isSettled = true := by decide
  have heq := h r "created_on" .timestamp [.date day]
    (Row.empty.set "created_on" (.dateTime time)) _ _ hcol (List.cons_ne_nil _ _) settled
    (leaf_membership_settled hcol (.inl rfl) settled)
    (.cons (leaf_eq_settled hcol rfl) .nil)
  revert heq
  decide

end Condition

end RowPolicy
