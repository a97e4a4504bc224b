import RowPolicy.Proofs.Complement
import RowPolicy.Proofs.Equality

/-!
# Being among items

A leaf that asks whether a column is among items says what the comparisons with these items say
together: that it is, if one of them is equal, and that it is not, if all of them differ. The search
may end where an item is found, and an item without an order to what the row holds leaves the answer
open only as long as none is. So what counts is which items there are.

The main statement is `Predicate.eval_membership_items`.
-/
namespace RowPolicy

namespace Value

theorem among_notIn_eq_all {items : List Value} (hne : items ≠ []) (a : Value) :
    among .notIn a items = Truth.all (items.map (compareBy .notEq a)) := by
  have hnot (v : Value) : (compareBy .eq a v).not = compareBy .notEq a v := not_compareBy .eq a v
  calc among .notIn a items
    _ = (among .isIn a items).not := (not_among .isIn rfl a items).symm
    _ = (Truth.any (items.map (compareBy .eq a))).not := by rw [among_eq_any (.inl rfl) hne]
    _ = Truth.all (items.map (compareBy .notEq a)) := by
      rw [Truth.not_any, List.map_map]
      simp only [Function.comp_def, hnot]

/-- Neither the order of the items nor how often one stands there matters. -/
theorem among_congr {items items' : List Value} (h : ∀ v, v ∈ items' ↔ v ∈ items) (op : Operator)
    (a : Value) : among op a items' = among op a items := by
  have hitems : amongItems a items' = amongItems a items := by
    rw [amongItems_eq_any, amongItems_eq_any]
    exact Truth.any_congr fun t => by simp only [List.mem_map, h]
  simp only [among, isEmpty_eq_of_mem_iff h, hitems]

end Value

namespace Predicate

variable {row : Row} {c : Column}

/-- An absent column leaves the membership open as it does each comparison. -/
theorem eval_membership_eq_any_compare {op : Operator} (hop : op = .isIn ∨ op = .eqAny)
    {vs : List Value} (hne : vs ≠ []) :
    eval row (membership c op vs) = Truth.any (vs.map fun v => eval row (compare c .eq v)) := by
  simp only [eval]
  cases c.read? row with
  | none => exact (Truth.any_map_unknown hne).symm
  | some actual =>
    have hmeets : Value.meets .eq actual = Value.compareBy .eq actual :=
      funext (Value.meets_eq_compareBy rfl actual)
    simp only [hmeets]
    exact Value.among_eq_any hop hne actual

theorem eval_membership_eq_all_compare {vs : List Value} (hne : vs ≠ []) :
    eval row (membership c .notIn vs) =
      Truth.all (vs.map fun v => eval row (compare c .notEq v)) := by
  simp only [eval]
  cases c.read? row with
  | none => exact (Truth.all_eq_unknown (by simpa using hne) (by simp)).symm
  | some actual =>
    have hmeets : Value.meets .notEq actual = Value.compareBy .notEq actual :=
      funext (Value.meets_eq_compareBy rfl actual)
    simp only [hmeets]
    exact Value.among_notIn_eq_all hne actual

theorem eval_membership_nil (row : Row) (c : Column) (op : Operator) :
    eval row (membership c op []) = .unknown := by
  simp only [eval]
  cases c.read? row <;> rfl

theorem eval_membership_of_absent (h : row.get? c.name = none) (op : Operator) (vs : List Value) :
    eval row (membership c op vs) = .unknown := by
  simp [eval, Column.read?, h]

theorem eval_membership_congr {vs ws : List Value} (h : ∀ v, v ∈ ws ↔ v ∈ vs) (op : Operator) :
    eval row (membership c op ws) = eval row (membership c op vs) := by
  simp only [eval, Value.among_congr h]

theorem eval_compare_list {op : Operator} (h : op.isMembership = true) (row : Row) (c : Column)
    (vs : List Value) : eval row (compare c op (.list vs)) = eval row (membership c op vs) := by
  simp only [eval, Value.meets, h, if_true]

/-- A membership is the disjunction of the equalities with the items, its denial the conjunction of
the inequalities. Only which items there are has a part in it, and where there are none or the
column is absent, nothing is known. -/
theorem eval_membership_items (row : Row) (c : Column) (vs : List Value) :
    (vs ≠ [] →
      eval row (membership c .isIn vs) = Truth.any (vs.map fun v => eval row (compare c .eq v)) ∧
      eval row (membership c .eqAny vs) = Truth.any (vs.map fun v => eval row (compare c .eq v)) ∧
      eval row (membership c .notIn vs) =
        Truth.all (vs.map fun v => eval row (compare c .notEq v))) ∧
    ∀ op : Operator, op.isMembership = true →
      (∀ ws, (∀ v, v ∈ ws ↔ v ∈ vs) →
        eval row (membership c op ws) = eval row (membership c op vs)) ∧
      eval row (membership c op []) = .unknown ∧
      (row.get? c.name = none → eval row (membership c op vs) = .unknown) ∧
      eval row (compare c op (.list vs)) = eval row (membership c op vs) := by
  constructor
  · intro hne
    exact ⟨eval_membership_eq_any_compare (.inl rfl) hne,
      eval_membership_eq_any_compare (.inr rfl) hne, eval_membership_eq_all_compare hne⟩
  · intro op hop
    exact ⟨fun ws h => eval_membership_congr h op, eval_membership_nil row c op,
      fun h => eval_membership_of_absent h op vs, eval_compare_list hop row c vs⟩

/-- An item of another kind keeps the absence of the others from being known, but not the presence
of the last. -/
theorem eval_membership_items_mixed :
    let c : Column := ⟨"users", "age", false⟩
    let row := Row.empty.set "age" (.int 30)
    let vs : List Value := [.int 7, .text "old", .list [.int 30]]
    eval row (membership c .notIn vs) = .unknown ∧
      eval row (membership c .isIn (vs ++ [.int 30])) = .yes ∧
      eval row (compare c .eqAny (.list ([.int 30] ++ vs))) = .yes := by
  intro c row vs
  obtain ⟨hall, -⟩ := eval_membership_items row c vs
  obtain ⟨hany, hsame⟩ := eval_membership_items row c (vs ++ [.int 30])
  obtain ⟨horder, -⟩ := hsame .eqAny rfl
  obtain ⟨-, -, -, hlist⟩ := (eval_membership_items row c ([.int 30] ++ vs)).2 .eqAny rfl
  have hmoved : ∀ v, v ∈ [.int 30] ++ vs ↔ v ∈ vs ++ [.int 30] := by simp [or_comm]
  refine ⟨?_, ?_, ?_⟩
  · rw [(hall (by simp [vs])).2.2]
    decide
  · rw [(hany (by simp)).1]
    decide
  · rw [hlist, horder _ hmoved, (hany (by simp)).2.1]
    decide

end Predicate

end RowPolicy
