import RowPolicy.Proofs.TemporalText
import RowPolicy.Proofs.Undecided

/-!
# Comparing times with a day

A time that is compared with a day by a condition is compared by its own day. That is to compare the
time itself with the midnights at which the day and the next one begin: a time is on a day or
later if it is not before the first midnight, and later than the day if it is not before the
second. The last second of a day belongs to it with all its fractions, also if it is a leap second.

The main statement is `Condition.eval_day`.
-/
namespace RowPolicy

namespace Date

/-! ## The next day -/

/-- The day after, if there is one. -/
def next? (d : Date) : Option Date :=
  if d.day < daysInMonth d.year d.month then of? d.year d.month (d.day + 1)
  else if d.month < 12 then of? d.year (d.month + 1) 1
  else of? (d.year + 1) 1 1

variable {d e : Date}

theorem one_le_daysInMonth (year : Int) (month : Nat) : 1 ≤ daysInMonth year month := by
  unfold daysInMonth
  split <;> split <;> omega

/-- Within a month, at its end or at the end of a year. -/
theorem next?_cases (h : d.next? = some e) :
    (e.year = d.year ∧ e.month = d.month ∧ e.day = d.day + 1) ∨
    (daysInMonth d.year d.month ≤ d.day ∧ e.year = d.year ∧ e.month = d.month + 1 ∧ e.day = 1) ∨
    (daysInMonth d.year d.month ≤ d.day ∧ d.month = 12 ∧
      e.year = d.year + 1 ∧ e.month = 1 ∧ e.day = 1) := by
  have := d.month_mem
  unfold next? at h
  split at h
  · exact .inl (of?_eq_some h)
  · next hlast =>
    rw [Nat.not_lt] at hlast
    split at h
    · exact .inr (.inl ⟨hlast, of?_eq_some h⟩)
    · exact .inr (.inr ⟨hlast, by omega, of?_eq_some h⟩)

/-- Only the last day of the last year has none. -/
theorem next?_eq_none (h : d.next? = none) :
    daysInMonth d.year d.month ≤ d.day ∧ d.month = 12 ∧ d.year = 262142 := by
  have hyear := d.year_mem
  have hmonth := d.month_mem
  have hday := one_le_daysInMonth d.year (d.month + 1)
  have hfirst := one_le_daysInMonth (d.year + 1) 1
  unfold next? at h
  split at h
  · rw [of?, dif_pos ⟨hyear, hmonth, by omega⟩] at h
    cases h
  · next hlast =>
    rw [Nat.not_lt] at hlast
    split at h
    · rw [of?, dif_pos ⟨hyear, by omega, by omega⟩] at h
      cases h
    · refine ⟨hlast, by omega, ?_⟩
      by_contra hbefore
      rw [of?, dif_pos ⟨by omega, by decide, by omega⟩] at h
      cases h

theorem day_le_of_sameMonth {f : Date} (hyear : f.year = d.year) (hmonth : f.month = d.month) :
    f.day ≤ daysInMonth d.year d.month := by
  rw [← hyear, ← hmonth]
  exact f.day_mem.2

theorem index_lt_iff_of_next? (h : d.next? = some e) (f : Date) :
    d.index < f.index ↔ e.index ≤ f.index := by
  have hmonth := d.month_mem
  have hday := d.day_lt
  have hmonth' := f.month_mem
  have hday' := f.day_mem.1
  have hlast := day_le_of_sameMonth (d := d) (f := f)
  have := f.day_lt
  unfold index
  -- Behind the last day of a month every later day is of a later month.
  rcases next?_cases h with ⟨hy, hm, hd⟩ | ⟨hend, hy, hm, hd⟩ | ⟨hend, hdec, hy, hm, hd⟩ <;>
    rw [hy, hm, hd] <;> omega

/-- The next day is the first one that is later. -/
theorem next?_eq_some_iff :
    d.next? = some e ↔ ∀ f : Date, d.index < f.index ↔ e.index ≤ f.index := by
  refine ⟨index_lt_iff_of_next?, fun h => ?_⟩
  have hlater : d.index < e.index := (h e).mpr le_rfl
  cases hnext : d.next? with
  | none =>
    obtain ⟨hend, hmonth, hyear⟩ := next?_eq_none hnext
    have hlast := day_le_of_sameMonth (d := d) (f := e)
    have := e.year_mem
    have := e.month_mem
    have := e.day_lt
    unfold index at hlater
    omega
  | some e' =>
    have h' := index_lt_iff_of_next? hnext
    have hle : e.index ≤ e'.index := (h e').mp ((h' e').mpr le_rfl)
    rw [index_injective (le_antisymm ((h' e).mp hlater) hle)]

end Date

/-! ## Times and midnights -/

theorem DateTime.index_bounds (t : DateTime) :
    t.date.index * 172800000000000 ≤ t.index ∧
      t.index < (t.date.index + 1) * 172800000000000 := by
  have := t.hour_lt
  have := t.minute_lt
  have := t.second_lt
  have := t.nanosecond_lt
  unfold index
  omega

/-- A time is before a midnight if its day is before the day that begins then. -/
theorem DateTime.compare_midnight_eq_lt_iff {t : DateTime} {d : Date} :
    t.compare (midnight d) = .lt ↔ t.date.compare d = .lt := by
  have := t.index_bounds
  simp only [DateTime.compare, Date.compare, compare_lt_iff_lt, index_midnight]
  omega

namespace Value

variable {d next : Date} {op : Operator}

/-- What a comparison of a time with a day says, by comparisons of the time with midnights. -/
def byMidnights (op : Operator) (stored : Value) (d next : Date) : Truth :=
  match op with
  | .gteq => compareBy .gteq stored (date d)
  | .lt => compareBy .lt stored (date d)
  | .lteq => compareBy .lt stored (date next)
  | .gt => compareBy .gteq stored (date next)
  | .eq => (compareBy .gteq stored (date d)).and (compareBy .lt stored (date next))
  | .notEq => ((compareBy .gteq stored (date d)).and (compareBy .lt stored (date next))).not
  | _ => .unknown

theorem compareBy_gteq (a b : Value) : compareBy .gteq a b = (compareBy .lt a b).not :=
  (not_compareBy (.symm .gteq) a b).symm

theorem compareBy_eq_and (a b : Value) :
    compareBy .eq a b = (compareBy .gteq a b).and (compareBy .lteq a b) := by
  rw [compareBy_comparison (by decide), compareBy_comparison (by decide),
    compareBy_comparison (by decide)]
  cases a.compare? b with
  | none => rfl
  | some o => cases o <;> rfl

theorem compareBy_lt_midnight (t : DateTime) (d : Date) :
    compareBy .lt (dateTime t) (date d) = compareBy .lt (date t.date) (date d) := by
  have hiff : (t.compare (.midnight d) == .lt) = (t.date.compare d == .lt) := by
    rw [Bool.eq_iff_iff, beq_iff_eq, beq_iff_eq, DateTime.compare_midnight_eq_lt_iff]
  exact congrArg Truth.ofBool hiff

/-- Before the next day is not after the day. -/
theorem compareBy_lt_next (h : d.next? = some next) (e : Date) :
    compareBy .lt (date e) (date next) = compareBy .lteq (date e) (date d) := by
  have hnext := Date.next?_eq_some_iff.mp h e
  have hiff : (e.compare next == .lt) = (e.compare d != .gt) := by
    rw [Bool.eq_iff_iff, beq_iff_eq, bne_iff_ne, Date.compare, Date.compare, compare_lt_iff_lt,
      ne_eq, compare_gt_iff_gt]
    omega
  exact congrArg Truth.ofBool hiff

/-- To compare the day of a time is to compare the time with midnights. -/
theorem compareBy_day (hop : op ∈ Operator.comparisons) (hnext : d.next? = some next)
    (t : DateTime) :
    compareBy op (date t.date) (date d) = byMidnights op (dateTime t) d next := by
  have hlt := compareBy_lt_midnight t d
  have hlteq : compareBy .lt (dateTime t) (date next) = compareBy .lteq (date t.date) (date d) :=
    (compareBy_lt_midnight t next).trans (compareBy_lt_next hnext t.date)
  have hgteq : compareBy .gteq (dateTime t) (date d) = compareBy .gteq (date t.date) (date d) := by
    rw [compareBy_gteq, hlt, compareBy_gteq]
  have hgt : compareBy .gteq (dateTime t) (date next) = compareBy .gt (date t.date) (date d) := by
    rw [compareBy_gteq, hlteq, not_compareBy (.symm .gt)]
  have heq := compareBy_eq_and (date t.date) (date d)
  have hnotEq := not_compareBy .eq (date t.date) (date d)
  simp only [Operator.comparisons, List.mem_cons, List.not_mem_nil, or_false] at hop
  rcases hop with rfl | rfl | rfl | rfl | rfl | rfl <;> simp only [byMidnights]
  · rw [hgteq, hlteq, heq]
  · rw [hgteq, hlteq, ← heq, hnotEq]
  · exact hgt.symm
  · exact hgteq.symm
  · exact hlt.symm
  · exact hlteq.symm

theorem compareBy_date_ne_unknown (hop : op ∈ Operator.comparisons) (d e : Date) :
    compareBy op (date d) (date e) ≠ .unknown := by
  obtain ⟨hmembership, hpattern⟩ := Operator.mem_comparisons_iff.mp hop
  rw [ne_eq, compareBy_order_eq_unknown_iff hpattern hmembership]
  exact nofun

end Value

namespace Condition

variable {r : Resource} {column token : String} {type : ColumnType} {op : Operator}

/-- Under the cast that a day brings, the leaf compares the day of the time. -/
theorem eval_compare_day (hop : op ∈ Operator.comparisons) {row : Row} {t : DateTime}
    (hrow : row.get? column = some (.dateTime t)) (table : String) (d : Date) :
    (Predicate.compare ⟨table, column, true⟩ op (.date d)).eval row =
      Value.compareBy op (.date t.date) (.date d) := by
  have hread : Column.read? ⟨table, column, true⟩ row = some (.date t.date) := by
    simp [Column.read?, hrow, Value.toDate?]
  rw [Predicate.eval, hread]
  exact Value.meets_eq_compareBy (Operator.mem_comparisons_iff.mp hop).1 _ _

/-- A condition that compares a column with a day is known for every time that the column holds. It
says of the time whether it is in front of, behind or between the midnights at which the day and the
next one begin. -/
theorem eval_day (hcol : r.columnType? column = some type)
    (htoken : Operator.ofToken? token = some op) (hop : op ∈ Operator.comparisons) {d next : Date}
    (hnext : d.next? = some next) {row : Row} {t : DateTime}
    (hrow : row.get? column = some (.dateTime t)) :
    ∃ p, leaf r ⟨column, token, .date d⟩ = .ok p ∧
      p.eval row = Value.byMidnights op (.dateTime t) d next ∧ p.eval row ≠ .unknown := by
  refine ⟨.compare ⟨r.table, column, true⟩ op (.date d), ?_, ?_, ?_⟩
  · rw [leaf_eq_leafOf hcol htoken, leafOf_settled (Operator.mem_comparisons_iff.mp hop).1 rfl]
    rfl
  · rw [eval_compare_day hop hrow, Value.compareBy_day hop hnext]
  · rw [eval_compare_day hop hrow]
    exact Value.compareBy_date_ne_unknown hop _ _

/-- The last fraction of a leap second at the end of a year is on that day, and not after it. -/
theorem eval_day_leap :
    let r := (Resource.new "users").withColumn "created_on" .timestamp
    let last : Date := ⟨2016, 12, 31, by decide, by decide, by decide⟩
    let leap : DateTime := ⟨last, 23, 59, 59, 1999999999, by decide, by decide, by decide, by decide⟩
    let row := Row.empty.set "created_on" (.dateTime leap)
    (∃ p, leaf r ⟨"created_on", "==", .date last⟩ = .ok p ∧ p.eval row = .yes) ∧
      ∃ p, leaf r ⟨"created_on", "gt", .date last⟩ = .ok p ∧ p.eval row = .no := by
  intro r last leap row
  let first : Date := ⟨2017, 1, 1, by decide, by decide, by decide⟩
  have hcol : r.columnType? "created_on" = some .timestamp := rfl
  have hrow : row.get? "created_on" = some (.dateTime leap) := by simp [row, Row.get?_set]
  have hnext : last.next? = some first := by decide
  have hsymbol : Operator.ofToken? "==" = some .eq := rfl
  have hword : Operator.ofToken? "gt" = some .gt := rfl
  obtain ⟨p, hp, heq, -⟩ := eval_day hcol hsymbol (by decide) hnext hrow
  obtain ⟨q, hq, hgt, -⟩ := eval_day hcol hword (by decide) hnext hrow
  exact ⟨⟨p, hp, heq.trans (by decide)⟩, q, hq, hgt.trans (by decide)⟩

end Condition

end RowPolicy
