import RowPolicy.Proofs.Shape
import RowPolicy.Proofs.TemporalText

/-!
# Leaves stated as conditions

A leaf can be stated as a condition again: on its column, with the word of its operator, and with
its value or the list of its values. This condition compiles to the same leaf. So all that
compilation does to a condition it does once and for all. A symbol becomes a word and a text of
elements a list, and the texts that a column reads become values. Nothing is left to split or to
read in the result, since what a column reads is never a text and a text that it cannot read stays
as it is.

The main statement is `Condition.leaf_restated`.
-/
namespace RowPolicy

/-! ## Reading twice -/

namespace ColumnType

variable {type : ColumnType}

/-- No column reads a text as a text, nor as a list. -/
theorem isSettled_of_read? {cs : List Char} {v : Value} (h : type.read? cs = some v) :
    v.isSettled = true := by
  cases type with
  | text => cases h
  | timestamp =>
    rcases Option.or_eq_some_iff.mp h with htime | ⟨-, hdate⟩
    · obtain ⟨t, -, rfl⟩ := Option.map_eq_some_iff.mp htime
      rfl
    · obtain ⟨d, -, rfl⟩ := Option.map_eq_some_iff.mp hdate
      rfl
  | integer | float | boolean | date =>
    obtain ⟨a, -, rfl⟩ := Option.map_eq_some_iff.mp h
    rfl

theorem isSettled_coerce_or_eq (type : ColumnType) (v : Value) :
    (type.coerce v).isSettled = true ∨ type.coerce v = v := by
  cases v with
  | text s =>
    rw [coerce]
    cases hread : type.read? s.toList with
    | none => exact .inr rfl
    | some v => exact .inl (isSettled_of_read? hread)
  | _ => exact .inr rfl

theorem coerce_coerce (type : ColumnType) (v : Value) :
    type.coerce (type.coerce v) = type.coerce v := by
  rcases isSettled_coerce_or_eq type v with hsettled | hsame
  · exact Condition.coerce_settled hsettled type
  · rw [hsame, hsame]

end ColumnType

namespace Condition

theorem aligned_aligned (type : ColumnType) (op : Operator) (v : Value) :
    aligned type op (aligned type op v) = aligned type op v := by
  unfold aligned
  split
  · exact type.coerce_coerce v
  · rfl

end Condition

/-! ## The condition of a leaf -/

/-- What a leaf tests, as a condition. -/
def Predicate.condition? : Predicate → Option Condition
  | compare column op value => some (.ofOperator column.name op value)
  | membership column op values => some (.ofOperator column.name op (.list values))
  | _ => none

namespace Condition

theorem leafOf_aligned {op : Operator} (hm : op.isMembership = false) (table column : String)
    (type : ColumnType) (v : Value) :
    leafOf table column type op (aligned type op v) = leafOf table column type op v := by
  rw [leafOf_comparison hm, leafOf_comparison hm, aligned_aligned]

theorem leafOf_map_coerce {op : Operator} (hm : op.isMembership = true) (table column : String)
    (type : ColumnType) (items : List Value) :
    leafOf table column type op (.list (items.map type.coerce)) =
      leafOf table column type op (.list items) := by
  have hcoerce : type.coerce ∘ type.coerce = type.coerce := funext type.coerce_coerce
  rw [leafOf_list hm, leafOf_list hm, List.map_map, hcoerce]

/-- Whatever value an operator of membership is given, the leaf is the one for some list. -/
theorem exists_leafOf_eq_list {op : Operator} (hm : op.isMembership = true)
    (table column : String) (type : ColumnType) (v : Value) :
    ∃ items, leafOf table column type op v = leafOf table column type op (.list items) := by
  obtain ⟨items, hitems⟩ := exists_normalized_eq_list hm v
  refine ⟨items, leafOf_congr ?_ table column⟩
  rw [hitems]
  simp [normalized, hm]

/-- The condition that a compiled leaf states compiles to that leaf. -/
theorem leaf_restated {r : Resource} {c : Condition} {p : Predicate} (h : c.leaf r = .ok p) :
    ∃ c', p.condition? = some c' ∧ c'.leaf r = .ok p := by
  obtain ⟨type, op, hcol, -, rfl⟩ := exists_leafOf_of_leaf h
  cases hm : op.isMembership with
  | true =>
    obtain ⟨items, hitems⟩ := exists_leafOf_eq_list hm r.table c.column type c.value
    rw [hitems, leafOf_list hm]
    refine ⟨_, rfl, ?_⟩
    rw [leaf_ofOperator hcol, leafOf_map_coerce hm, leafOf_list hm]
  | false =>
    rw [leafOf_comparison hm]
    refine ⟨_, rfl, ?_⟩
    rw [leaf_ofOperator hcol, leafOf_aligned hm, leafOf_comparison hm]

/-- A text of a day, an element that is no time, and a symbol that turns into its word. -/
theorem leaf_restated_times :
    let r := (Resource.new "users").withColumn "created_on" .timestamp
    let day : Date := ⟨2021, 9, 1, by decide, by decide, by decide⟩
    let among : Condition := ⟨"created_on", "not_in", .text "2021-09-01;, soon ;"⟩
    let after : Condition := ⟨"created_on", ">", .text "2021-09-01"⟩
    (∃ p, among.leaf r = .ok p ∧
      leaf r ⟨"created_on", "not_in", .list [.date day, .text "soon"]⟩ = .ok p) ∧
    ∃ p, after.leaf r = .ok p ∧ leaf r ⟨"created_on", "gt", .date day⟩ = .ok p := by
  intro r day among after
  have hcol : r.columnType? "created_on" = some .timestamp := rfl
  have hday : ColumnType.Writes .timestamp (.date day) "2021-09-01" := by
    have htext : "2021-09-01" = String.ofList day.text := by decide +kernel
    exact htext ▸ .day rfl day
  have hsoon : ColumnType.timestamp.coerce (.text "soon") = .text "soon" := by cbv
  have hamong : among.leaf r =
      .ok (.membership ⟨"users", "created_on", false⟩ .notIn [.date day, .text "soon"]) := by
    have hsplit : normalized .notIn among.value =
        normalized .notIn (.list [.text "2021-09-01", .text "soon"]) := by
      unfold among
      cbv
    rw [leaf_eq_leafOf hcol rfl, leafOf_congr hsplit, leafOf_list rfl, List.map_cons, List.map_cons,
      ColumnType.coerce_of_writes hday, hsoon]
    rfl
  have hafter : after.leaf r = .ok (.compare ⟨"users", "created_on", true⟩ .gt (.date day)) := by
    rw [leaf_eq_leafOf hcol rfl, leafOf_of_writes (by decide) hday]
    rfl
  obtain ⟨c, hc, hleaf⟩ := leaf_restated hamong
  obtain ⟨c', hc', hleaf'⟩ := leaf_restated hafter
  cases hc
  cases hc'
  exact ⟨⟨_, hamong, hleaf⟩, _, hafter, hleaf'⟩

end Condition

end RowPolicy
