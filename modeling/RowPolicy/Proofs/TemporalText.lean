import RowPolicy.Proofs.Calendar.Reading
import RowPolicy.Proofs.DelimitedList
import RowPolicy.Proofs.Membership
import RowPolicy.Proofs.Order

/-!
# Texts in columns of time

A condition may give a day or a time as a value or as a text that spells it. In a column of time the
text becomes the value, so both compile to one leaf: a day is compared with the day of what the
column holds in either case, and the items of a list are read one by one.

A text is read in two places: a condition on a column of time reads its own text, and a comparison by
the day reads the text that a row holds. The two agree on what a text denotes. Only where a column of
dates is compared with a text that denotes a time, the text is left as it is, although it has a day.

The main statements are `Condition.leaf_writes` and `ColumnType.coerce_text_time`.
-/
namespace RowPolicy

/-- Days and times. -/
def Value.isTime : Value → Bool
  | date _ | dateTime _ => true
  | _ => false

theorem Value.isSettled_of_isTime {v : Value} (h : v.isTime = true) : v.isSettled = true := by
  cases v <;> first | rfl | cases h

namespace ColumnType

/-- How a day or a time is spelled for a column of time. A time is whole, and it has a `T` or a space
in front of its clock. -/
inductive Writes : ColumnType → Value → String → Prop where
  | day {type : ColumnType} (h : type.isTemporal = true) (d : Date) :
    Writes type (.date d) (String.ofList d.text)
  | marked {t : DateTime} (whole : t.IsWhole) :
    Writes .timestamp (.dateTime t) (String.ofList (t.date.text ++ 'T' :: t.clockText))
  | spaced {t : DateTime} (whole : t.IsWhole) :
    Writes .timestamp (.dateTime t) (String.ofList t.text)

variable {type : ColumnType}

/-! ## What a column reads -/

theorem read?_timestamp_of_dateTime {cs : List Char} {t : DateTime}
    (h : DateTime.ofText? cs = some t) : timestamp.read? cs = some (.dateTime t) := by
  simp [read?, h]

/-- A text that denotes a date denotes no time, which would come first. -/
theorem read?_of_date (h : type.isTemporal = true) {cs : List Char} {d : Date}
    (hd : Date.ofText? cs = some d) : type.read? cs = some (.date d) := by
  cases type with
  | date => simp [read?, hd]
  | timestamp => simp [read?, hd, DateTime.ofText?_eq_none hd]
  | _ => cases h

theorem coerce_eq_of_read? {s : String} {v : Value} (h : type.read? s.toList = some v) :
    type.coerce (.text s) = v := by
  rw [coerce, h, Option.getD_some]

theorem coerce_of_unread {s : String} (h : type.read? s.toList = none) :
    type.coerce (.text s) = .text s := by
  rw [coerce, h, Option.getD_none]

theorem coerce_of_writes {v : Value} {s : String} (h : type.Writes v s) :
    type.coerce (.text s) = v := by
  cases h with
  | day htype d =>
    exact coerce_eq_of_read? (read?_of_date htype (by rw [String.toList_ofList, d.ofText?_text]))
  | marked whole =>
    refine coerce_eq_of_read? (read?_timestamp_of_dateTime ?_)
    rw [String.toList_ofList, DateTime.ofText?_marked whole]
  | spaced whole =>
    refine coerce_eq_of_read? (read?_timestamp_of_dateTime ?_)
    rw [String.toList_ofList, DateTime.ofText?_text whole]

theorem Writes.isTemporal {v : Value} {s : String} (h : type.Writes v s) :
    type.isTemporal = true := by
  cases h with
  | day htype => exact htype
  | marked | spaced => rfl

theorem Writes.isTime {v : Value} {s : String} (h : type.Writes v s) : v.isTime = true := by
  cases h <;> rfl

/-! ## Two readers -/

theorem toDate?_text_of_date {s : String} {d : Date} (h : Date.ofText? s.toList = some d) :
    (Value.text s).toDate? = some d := by
  simp [Value.toDate?, h]

theorem toDate?_text_of_not_date {s : String} (h : Date.ofText? s.toList = none) :
    (Value.text s).toDate? = (DateTime.ofText? s.toList).map DateTime.date := by
  rw [Value.toDate?, h, Option.none_or]

/-- What a column of time makes of a text. A column of dates takes no time. -/
inductive Takes (type : ColumnType) (s : String) : Value → Prop where
  | day {d : Date} (hdate : Date.ofText? s.toList = some d) : Takes type s (.date d)
  | time {t : DateTime} (htype : type = .timestamp) (hdate : Date.ofText? s.toList = none)
    (htime : DateTime.ofText? s.toList = some t) : Takes type s (.dateTime t)
  | nothing (hdate : Date.ofText? s.toList = none)
    (htime : type = .date ∨ DateTime.ofText? s.toList = none) : Takes type s (.text s)

theorem takes_coerce (h : type.isTemporal = true) (s : String) :
    type.Takes s (type.coerce (.text s)) := by
  cases hdate : Date.ofText? s.toList with
  | some d =>
    rw [coerce_eq_of_read? (read?_of_date h hdate)]
    exact .day hdate
  | none =>
    cases type with
    | date =>
      rw [coerce_of_unread (by simp [read?, hdate])]
      exact .nothing hdate (.inl rfl)
    | timestamp =>
      cases htime : DateTime.ofText? s.toList with
      | some t =>
        rw [coerce_eq_of_read? (read?_timestamp_of_dateTime htime)]
        exact .time rfl hdate htime
      | none =>
        rw [coerce_of_unread (by simp [read?, hdate, htime])]
        exact .nothing hdate (.inr htime)
    | _ => cases h

variable {s : String} {v : Value}

theorem Takes.isTime_iff (h : type.Takes s v) :
    v.isTime = true ↔ (Value.text s).toDate?.isSome = true ∧
      ¬(type = .date ∧ (DateTime.ofText? s.toList).isSome = true) := by
  cases h with
  | day hdate =>
    simp [Value.isTime, toDate?_text_of_date hdate, DateTime.ofText?_eq_none hdate]
  | time htype hdate htime =>
    simp [Value.isTime, toDate?_text_of_not_date hdate, htype, htime]
  | nothing hdate htime =>
    rw [toDate?_text_of_not_date hdate]
    rcases htime with rfl | hnone
    · simp [Value.isTime, Option.isSome_iff_ne_none]
    · simp [Value.isTime, hnone]

/-- The day does not depend on which of the two readers came first. -/
theorem Takes.toDate?_eq (h : type.Takes s v) : v.toDate? = (Value.text s).toDate? := by
  cases h with
  | day hdate => exact (toDate?_text_of_date hdate).symm
  | time _ hdate htime =>
    rw [toDate?_text_of_not_date hdate, htime]
    rfl
  | nothing => rfl

theorem Takes.eq_text (h : type.Takes s v) (hnot : v.isTime = false) : v = .text s := by
  cases h with
  | day | time => cases hnot
  | nothing => rfl

/-- In a column of time a text becomes a day or a time exactly if it has a day, unless the column is
one of dates and the text denotes a time. What it becomes has that day, and is what was spelled. -/
theorem coerce_text_time (h : type.isTemporal = true) (s : String) :
    let v := type.coerce (.text s)
    (v.isTime = true ↔ (Value.text s).toDate?.isSome = true ∧
      ¬(type = .date ∧ (DateTime.ofText? s.toList).isSome = true)) ∧
    v.toDate? = (Value.text s).toDate? ∧
    (v.isTime = false → v = .text s) ∧
    ∀ w, type.Writes w s → v = w := by
  have htakes := takes_coerce h s
  exact ⟨htakes.isTime_iff, htakes.toDate?_eq, htakes.eq_text, fun w hw => coerce_of_writes hw⟩

/-- White space before each number, fields of one digit, a year with a sign and a last second of a
minute that is a leap second. -/
theorem coerce_text_time_lenient :
    let day : Date := ⟨-12345, 2, 3, by decide, by decide, by decide⟩
    let s := " -12345-\t2- 3 4:\n5:60"
    (timestamp.coerce (.text s)).isTime = true ∧
      (timestamp.coerce (.text s)).toDate? = some day := by
  intro day s
  have htype : timestamp.isTemporal = true := rfl
  have hs : (Value.text s).toDate? = some day := by decide +kernel
  obtain ⟨htime, hday, -⟩ := coerce_text_time htype s
  exact ⟨htime.mpr ⟨by rw [hs]; rfl, by simp⟩, hday.trans hs⟩

/-- A text that denotes a time has a day, and a column of dates leaves it a text. -/
theorem coerce_text_not_time :
    ¬∀ type : ColumnType, type.isTemporal = true → ∀ s : String,
      ((type.coerce (.text s)).isTime = true ↔ (Value.text s).toDate?.isSome = true) := by
  intro h
  have hiff := h .date rfl "2021-09-01T10:00:00"
  revert hiff
  decide +kernel

end ColumnType

namespace Condition

open ColumnType (Writes)

variable {r : Resource} {column token : String} {type : ColumnType} {op : Operator}

theorem leafOf_of_writes (hop : op ∈ Operator.comparisons) {v : Value} {s : String}
    (h : type.Writes v s) (table column : String) :
    leafOf table column type op (.text s) = .compare ⟨table, column, v.isDate⟩ op v := by
  have haligned : aligned type op (normalized op (.text s)) = v := by
    simp [aligned, normalized, Operator.mem_comparisons_iff.mp hop, h.isTemporal,
      ColumnType.coerce_of_writes h]
  rw [leafOf, haligned]
  cases h <;> rfl

theorem map_coerce_writes {vs : List Value} {ss : List String}
    (h : List.Forall₂ type.Writes vs ss) :
    (ss.map .text).map type.coerce = vs ∧ vs.map type.coerce = vs := by
  induction h with
  | nil => exact ⟨rfl, rfl⟩
  | cons hwrites _ ih =>
    simp only [List.map_cons, ih, ColumnType.coerce_of_writes hwrites,
      coerce_settled (Value.isSettled_of_isTime hwrites.isTime), and_self]

/-- In a column of time a text that spells a day or a time compiles to the leaf for the value, be it
compared with the column or in a list. A comparison with a day, and no other, is with the day of
what the column holds. -/
theorem leaf_writes (hcol : r.columnType? column = some type)
    (htoken : Operator.ofToken? token = some op) :
    (op ∈ Operator.comparisons → ∀ v s, type.Writes v s →
      let p := Predicate.compare ⟨r.table, column, v.isDate⟩ op v
      leaf r ⟨column, token, .text s⟩ = .ok p ∧ leaf r ⟨column, token, v⟩ = .ok p) ∧
    (op.isMembership = true → ∀ vs ss, List.Forall₂ type.Writes vs ss →
      let p := Predicate.membership ⟨r.table, column, false⟩ op vs
      leaf r ⟨column, token, .list (ss.map .text)⟩ = .ok p ∧
        leaf r ⟨column, token, .list vs⟩ = .ok p) := by
  refine ⟨fun hop v s hwrites => ?_, fun hop vs ss hwrites => ?_⟩
  · have hmembership := (Operator.mem_comparisons_iff.mp hop).1
    have hsettled := Value.isSettled_of_isTime hwrites.isTime
    rw [leaf_eq_leafOf hcol htoken, leaf_eq_leafOf hcol htoken, leafOf_of_writes hop hwrites,
      leafOf_settled hmembership hsettled]
    exact ⟨rfl, rfl⟩
  · obtain ⟨htexts, hvalues⟩ := map_coerce_writes hwrites
    rw [leaf_eq_leafOf hcol htoken, leaf_eq_leafOf hcol htoken, leafOf_list hop, leafOf_list hop,
      htexts, hvalues]
    exact ⟨rfl, rfl⟩

/-- A leap day of a year with a sign, behind a symbol, and a leap second in both spellings. -/
theorem leaf_writes_leap :
    let r := (Resource.new "users").withColumn "created_on" .timestamp
    let day : Date := ⟨-10000, 2, 29, by decide, by decide, by decide⟩
    let last : Date := ⟨2016, 12, 31, by decide, by decide, by decide⟩
    let leap : DateTime := ⟨last, 23, 59, 59, 1000000000, by decide, by decide, by decide, by decide⟩
    leaf r ⟨"created_on", "<=", .text "-10000-02-29"⟩ =
        .ok (.compare ⟨"users", "created_on", true⟩ .lteq (.date day)) ∧
      leaf r ⟨"created_on", "not_in", .list [.text "2016-12-31T23:59:60", .text "2016-12-31 23:59:60"]⟩ =
        leaf r ⟨"created_on", "not_in", .list [.dateTime leap, .dateTime leap]⟩ := by
  intro r day last leap
  have hcol : r.columnType? "created_on" = some .timestamp := rfl
  have hday : Writes .timestamp (.date day) "-10000-02-29" := by
    have htext : "-10000-02-29" = String.ofList day.text := by decide +kernel
    exact htext ▸ .day rfl day
  have hmarked : Writes .timestamp (.dateTime leap) "2016-12-31T23:59:60" := by
    have htext : "2016-12-31T23:59:60" = String.ofList (last.text ++ 'T' :: leap.clockText) := by
      decide +kernel
    exact htext ▸ .marked (by decide)
  have hspaced : Writes .timestamp (.dateTime leap) "2016-12-31 23:59:60" := by
    have htext : "2016-12-31 23:59:60" = String.ofList leap.text := by decide +kernel
    exact htext ▸ .spaced (by decide)
  have hsymbol : Operator.ofToken? "<=" = some .lteq := rfl
  have hword : Operator.ofToken? "not_in" = some .notIn := rfl
  obtain ⟨hcompare, -⟩ := leaf_writes hcol hsymbol
  obtain ⟨-, hlist⟩ := leaf_writes hcol hword
  obtain ⟨htexts, hvalues⟩ := hlist rfl _ _ (.cons hmarked (.cons hspaced .nil))
  exact ⟨(hcompare (by decide) _ _ hday).1, htexts.trans hvalues.symm⟩

end Condition

end RowPolicy
