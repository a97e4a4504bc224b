import RowPolicy.Predicate.Evaluation

/-!
# Rows with further columns

A truth value is refined by another that says the same and perhaps more: an unknown value may
become true or false, and a known one stays. The connectives respect this order, and a leaf that
lacks its column says nothing.

The main statement is `Predicate.eval_extends`: what a filter decides about a row it decides about
every row that has the same columns and others besides.
-/
namespace RowPolicy

/-! ## Truth values -/

namespace Truth

/-- What is known is kept. -/
def RefinedBy (t u : Truth) : Prop := t = unknown ∨ t = u

theorem RefinedBy.refl (t : Truth) : t.RefinedBy t := .inr rfl

theorem RefinedBy.eq_of_ne {t u : Truth} (h : t.RefinedBy u) (hne : t ≠ unknown) : u = t :=
  (h.resolve_left hne).symm

theorem RefinedBy.not {t u : Truth} (h : t.RefinedBy u) : t.not.RefinedBy u.not := by
  rcases h with rfl | rfl
  · exact .inl rfl
  · exact .refl _

/-- An operand that becomes known leaves a conjunction as it is if the other one decided it. -/
theorem RefinedBy.and {a a' b b' : Truth} (ha : a.RefinedBy a') (hb : b.RefinedBy b') :
    (a.and b).RefinedBy (a'.and b') := by
  rcases ha with rfl | rfl
  · rcases hb with rfl | rfl
    · exact .inl rfl
    · cases b with
      | no => exact .inr (and_no a').symm
      | unknown | yes => exact .inl rfl
  · rcases hb with rfl | rfl
    · cases a with
      | no => exact .refl _
      | unknown | yes => exact .inl rfl
    · exact .refl _

theorem RefinedBy.or {a a' b b' : Truth} (ha : a.RefinedBy a') (hb : b.RefinedBy b') :
    (a.or b).RefinedBy (a'.or b') := by
  have h := (ha.not.and hb.not).not
  rwa [← not_or, ← not_or, not_not, not_not] at h

end Truth

/-! ## Rows -/

/-- A row that has the values of another, and perhaps values in further columns. -/
def Row.Extends (row' row : Row) : Prop :=
  ∀ column value, row.get? column = some value → row'.get? column = some value

theorem Column.read?_extends {row row' : Row} (h : row'.Extends row) {c : Column} {v : Value}
    (hv : c.read? row = some v) : c.read? row' = some v := by
  obtain ⟨stored, hstored, hread⟩ := Option.bind_eq_some_iff.mp hv
  exact Option.bind_eq_some_iff.mpr ⟨stored, h _ _ hstored, hread⟩

/-! ## Filters -/

namespace Predicate

variable {row row' : Row}

/-- A leaf of either kind is unknown without its column, and else depends on what the column
holds alone. -/
theorem refinedBy_read (h : row'.Extends row) (c : Column) (decides : Value → Truth) :
    Truth.RefinedBy
      (match c.read? row with | some actual => decides actual | none => .unknown)
      (match c.read? row' with | some actual => decides actual | none => .unknown) := by
  cases hread : c.read? row with
  | none => exact .inl rfl
  | some actual =>
    rw [Column.read?_extends h hread]
    exact .refl _

theorem eval_refinedBy (h : row'.Extends row) (p : Predicate) :
    (p.eval row).RefinedBy (p.eval row') := by
  induction p with
  | all | nothing | alwaysTrue => exact .refl _
  | compare column op value => exact refinedBy_read h column (Value.meets op · value)
  | membership column op values => exact refinedBy_read h column (Value.among op · values)
  | and a b iha ihb =>
    rw [eval_and, eval_and]
    exact iha.and ihb
  | or a b iha ihb =>
    rw [eval_or, eval_or]
    exact iha.or ihb
  | not a ih => exact ih.not
  | group a ih => exact ih

/-- Further columns never overturn what is known of a row. -/
theorem eval_extends (h : row'.Extends row) (p : Predicate) :
    (p.eval row = .yes → p.eval row' = .yes) ∧ (p.eval row = .no → p.eval row' = .no) := by
  have hrefined := eval_refinedBy h p
  constructor
  · intro hyes
    exact (hrefined.eq_of_ne (by simp [hyes])).trans hyes
  · intro hno
    exact (hrefined.eq_of_ne (by simp [hno])).trans hno

/-- A filter that a row already fails, although one of its leaves is unknown there, is failed by
the row with that column as well. -/
theorem eval_extends_region :
    let p : Predicate := .not (.group (.or (.compare ⟨"users", "region", false⟩ .eq (.text "EU"))
      (.membership ⟨"users", "age", false⟩ .isIn [.int 18, .int 21])))
    let row := Row.empty.set "age" (.int 21)
    let row' := row.set "region" (.text "US")
    row'.Extends row ∧ p.eval row = .no ∧ p.eval row' = .no := by
  intro p row row'
  have h : row'.Extends row := by
    intro column value hvalue
    have hne : "region" ≠ column := by
      rintro rfl
      simp [row, Row.get?_set] at hvalue
    rw [Row.get?_set, if_neg hne, hvalue]
  have hno : p.eval row = .no := by decide
  exact ⟨h, hno, (eval_extends h p).2 hno⟩

end Predicate

end RowPolicy
