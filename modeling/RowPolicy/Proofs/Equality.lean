import Mathlib.Algebra.Order.Ring.Int
import RowPolicy.Proofs.Connectives

/-!
# Equality of values

When two values compare as equal, and being among values as a disjunction of equalities. An
equality with a date may also be asked of the day of a value, which decides differently for a
date-time within that day and for a text that spells a day.
-/
namespace RowPolicy

theorem Date.compare_eq_iff {d e : Date} : d.compare e = .eq ↔ d = e := by
  refine ⟨fun h => Date.index_injective (compare_eq_iff_eq.mp h), ?_⟩
  rintro rfl
  exact compare_eq_iff_eq.mpr rfl

theorem Date.compare_beq_eq (d e : Date) : (d.compare e == .eq) = decide (d = e) := by
  rw [Bool.eq_iff_iff, beq_iff_eq, decide_eq_true_iff, compare_eq_iff]

/-- A time that compares equal to a midnight is on its day. -/
theorem DateTime.date_eq_of_compare_midnight {t : DateTime} {d : Date}
    (h : t.compare (midnight d) = .eq) : t.date = d := by
  have hindex : t.index = (midnight d).index := compare_eq_iff_eq.mp h
  have := t.hour_lt; have := t.minute_lt; have := t.second_lt; have := t.nanosecond_lt
  refine Date.index_injective ?_
  simp only [index, midnight] at hindex
  omega

namespace Value

/-- Whether two values compare as equal. -/
def equals (a b : Value) : Bool := a.compare? b == some .eq

theorem compareBy_eq (a b : Value) :
    compareBy .eq a b =
      match a.compare? b with
      | some o => .ofBool (o == .eq)
      | none => .unknown := rfl

theorem compareBy_eq_yes_iff {a b : Value} : compareBy .eq a b = .yes ↔ a.equals b = true := by
  rw [compareBy_eq, equals]
  cases a.compare? b with
  | none => simp
  | some o => cases o <;> decide

theorem meets_eq_compareBy {op : Operator} (h : op.isMembership = false) (a b : Value) :
    meets op a b = compareBy op a b := by
  cases b <;> simp [meets, h]

theorem amongItems_eq_any (a : Value) (items : List Value) :
    amongItems a items = Truth.any (items.map (compareBy .eq a)) := by
  induction items with
  | nil => rfl
  | cons v vs ih =>
    rw [amongItems, List.map_cons, Truth.any, ih]
    cases compareBy .eq a v <;> rfl

/-- There are two ways to ask whether a value is among others. -/
theorem among_eq_any {op : Operator} (hop : op = .isIn ∨ op = .eqAny) {items : List Value}
    (hne : items ≠ []) (a : Value) :
    among op a items = Truth.any (items.map (compareBy .eq a)) := by
  rcases hop with rfl | rfl <;> simp [among, hne, amongItems_eq_any]

theorem amongItems_eq_yes_iff {a : Value} {items : List Value} :
    amongItems a items = .yes ↔ items.any a.equals = true := by
  rw [amongItems_eq_any, Truth.any_eq_yes_iff, List.mem_map, List.any_eq_true]
  simp only [compareBy_eq_yes_iff]

/-! ## Equality by the day -/

/-- Scalars that a column of any type takes as they are. -/
def isSettled : Value → Bool
  | text _ | list _ => false
  | _ => true

/-- Equality as a condition asks for it: a date is compared with the day of the value. -/
def equalByDay (stored : Value) : Value → Truth
  | date d =>
    match stored.toDate? with
    | some e => .ofBool (e = d)
    | none => .unknown
  | v => compareBy .eq stored v

/-- Whether asking for days or asking for the value itself decides differently that a value is
among others. A date-time is on one of their days and yet equal to none of them. A text spells a
day that one of them is, or a day while all of them are days. -/
def DiffersByDay (stored : Value) (vs : List Value) : Prop :=
  match stored with
  | dateTime t => date t.date ∈ vs ∧ ∀ v ∈ vs, stored.equals v = false
  | text _ => ∃ e, stored.toDate? = some e ∧ (date e ∈ vs ∨ ∀ v ∈ vs, v.isDate = true)
  | _ => False

theorem equalByDay_of_isDate_eq_false {v : Value} (h : v.isDate = false) (stored : Value) :
    stored.equalByDay v = compareBy .eq stored v := by
  cases v with
  | date d => cases h
  | _ => rfl

theorem equalByDay_date_eq_yes_iff {stored : Value} {d : Date} :
    stored.equalByDay (date d) = .yes ↔ stored.toDate? = some d := by
  rw [equalByDay]
  cases stored.toDate? with
  | none => simp
  | some e => by_cases h : e = d <;> simp [h]

/-- The day of the value is among the dates. -/
theorem any_equalByDay_eq_yes {stored : Value} {d : Date} {vs : List Value}
    (hday : stored.toDate? = some d) (hmem : date d ∈ vs) :
    Truth.any (vs.map stored.equalByDay) = .yes :=
  Truth.any_eq_yes_iff.mpr (List.mem_map.mpr ⟨_, hmem, equalByDay_date_eq_yes_iff.mpr hday⟩)

/-- The value has a day, which is none of the dates, and there are only dates. -/
theorem any_equalByDay_eq_no {stored : Value} {d : Date} {vs : List Value}
    (hday : stored.toDate? = some d) (hdates : ∀ v ∈ vs, v.isDate = true) (hmem : date d ∉ vs) :
    Truth.any (vs.map stored.equalByDay) = .no := by
  rw [Truth.any_eq_no_iff, List.forall_mem_map]
  intro v hv
  cases v with
  | date e =>
    have hne : d ≠ e := by
      rintro rfl
      exact hmem hv
    simp [equalByDay, hday, hne]
  | _ => cases hdates _ hv

theorem any_equalByDay_dateTime_iff (t : DateTime) (vs : List Value) :
    Truth.any (vs.map (compareBy .eq (dateTime t))) = Truth.any (vs.map (dateTime t).equalByDay) ↔
      ¬ (dateTime t).DiffersByDay vs := by
  constructor
  · rintro heq ⟨hday, hnone⟩
    rw [any_equalByDay_eq_yes rfl hday, Truth.any_eq_yes_iff] at heq
    obtain ⟨v, hv, hcompare⟩ := List.mem_map.mp heq
    rw [compareBy_eq_yes_iff, hnone v hv] at hcompare
    cases hcompare
  · intro hsame
    by_cases hday : date t.date ∈ vs
    · -- Some item is the very time, and then its day is the day asked for.
      have hsome : ¬ ∀ v ∈ vs, (dateTime t).equals v = false := fun h => hsame ⟨hday, h⟩
      obtain ⟨v, hv, hequals⟩ : ∃ v ∈ vs, (dateTime t).equals v = true := by simpa using hsome
      have hl : Truth.any (vs.map (compareBy .eq (dateTime t))) = .yes :=
        Truth.any_eq_yes_iff.mpr (List.mem_map.mpr ⟨v, hv, compareBy_eq_yes_iff.mpr hequals⟩)
      rw [hl, any_equalByDay_eq_yes rfl hday]
    · congr 1
      refine List.map_congr_left fun v hv => ?_
      cases v with
      | date d =>
        have hne : t.date ≠ d := by
          rintro rfl
          exact hday hv
        have hcompare : (t.compare (.midnight d) == .eq) = false :=
          beq_eq_false_iff_ne.mpr fun h => hne (DateTime.date_eq_of_compare_midnight h)
        simp [compareBy_eq, compare?, equalByDay, toDate?, hne, hcompare]
      | _ => rfl

theorem compareBy_text_settled (s : String) {v : Value} (h : v.isSettled = true) :
    compareBy .eq (text s) v = .unknown := by
  cases v <;> first | rfl | cases h

/-- Next to a text that spells a day, only what is no date leaves the disjunction open. -/
theorem any_equalByDay_text_eq_unknown_iff (s : String) {vs : List Value} (hne : vs ≠ [])
    (settled : ∀ v ∈ vs, v.isSettled = true) :
    Truth.any (vs.map (text s).equalByDay) = .unknown ↔ ¬ (text s).DiffersByDay vs := by
  have hother {v : Value} (hv : v ∈ vs) (h : v.isDate = false) :
      (text s).equalByDay v = .unknown := by
    rw [equalByDay_of_isDate_eq_false h, compareBy_text_settled s (settled v hv)]
  constructor
  · rintro hopen ⟨e, he, hdiffers⟩
    by_cases hmem : date e ∈ vs
    · rw [any_equalByDay_eq_yes he hmem] at hopen
      cases hopen
    · rw [any_equalByDay_eq_no he (hdiffers.resolve_left hmem) hmem] at hopen
      cases hopen
  · intro hsame
    refine Truth.any_eq_unknown ?_ ?_
    · intro hyes
      obtain ⟨v, hv, hequal⟩ := List.mem_map.mp hyes
      cases hd : v.isDate with
      | false =>
        rw [hother hv hd] at hequal
        cases hequal
      | true =>
        obtain ⟨d, rfl⟩ : ∃ d, v = date d := by
          cases v with
          | date d => exact ⟨d, rfl⟩
          | _ => cases hd
        exact hsame ⟨d, equalByDay_date_eq_yes_iff.mp hequal, .inl hv⟩
    · cases hday : (text s).toDate? with
      | none =>
        obtain ⟨v, hv⟩ := List.exists_mem_of_ne_nil vs hne
        refine List.mem_map.mpr ⟨v, hv, ?_⟩
        cases v with
        | date d => simp [equalByDay, hday]
        | _ => exact hother hv rfl
      | some e =>
        have hsome : ¬ ∀ v ∈ vs, v.isDate = true := fun h => hsame ⟨e, hday, .inr h⟩
        obtain ⟨v, hv, hd⟩ : ∃ v ∈ vs, v.isDate = false := by simpa using hsome
        exact List.mem_map.mpr ⟨v, hv, hother hv hd⟩

theorem any_equalByDay_text_iff (s : String) {vs : List Value} (hne : vs ≠ [])
    (settled : ∀ v ∈ vs, v.isSettled = true) :
    Truth.any (vs.map (compareBy .eq (text s))) = Truth.any (vs.map (text s).equalByDay) ↔
      ¬ (text s).DiffersByDay vs := by
  have hopen : Truth.any (vs.map (compareBy .eq (text s))) = .unknown := by
    have hmap : vs.map (compareBy .eq (text s)) = vs.map fun _ => .unknown :=
      List.map_congr_left fun v hv => compareBy_text_settled s (settled v hv)
    rw [hmap, Truth.any_map_unknown hne]
  rw [hopen, eq_comm, any_equalByDay_text_eq_unknown_iff s hne settled]

/-- Where days and values decide alike, so do the disjunctions, and only there. -/
theorem any_equalByDay_iff (stored : Value) {vs : List Value} (hne : vs ≠ [])
    (settled : ∀ v ∈ vs, v.isSettled = true) :
    Truth.any (vs.map (compareBy .eq stored)) = Truth.any (vs.map stored.equalByDay) ↔
      ¬ stored.DiffersByDay vs := by
  have halike (h : ∀ v, compareBy .eq stored v = stored.equalByDay v) :
      Truth.any (vs.map (compareBy .eq stored)) = Truth.any (vs.map stored.equalByDay) :=
    congrArg Truth.any (List.map_congr_left fun v _ => h v)
  cases stored with
  | dateTime t => exact any_equalByDay_dateTime_iff t vs
  | text s => exact any_equalByDay_text_iff s hne settled
  | date d =>
    refine iff_of_true (halike fun v => ?_) not_false
    cases v with
    | date e => simp [compareBy_eq, compare?, equalByDay, toDate?, Date.compare_beq_eq]
    | _ => rfl
  | _ => exact iff_of_true (halike fun v => by cases v <;> rfl) not_false

end Value

end RowPolicy
