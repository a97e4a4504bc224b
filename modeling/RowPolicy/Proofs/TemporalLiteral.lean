import RowPolicy.Proofs.TemporalText
import RowPolicy.Value.Literal

/-!
# Days and times in a query

The literal of a day or a time is its text between quotes. Read for a column of times, that text is
the value in whole seconds as they are written. For every year and every second this is the value
itself if the time is whole, leap seconds included. A fraction of a second is not written, and the
mark of a leap second behind another second than 59 is written as the next second, so both are lost.
Hence two values share a literal exactly if they are the same in written seconds.

The main statement is `Value.coerce_literal`.
-/
namespace RowPolicy

namespace DateTime

/-- The time in whole seconds as they are written: without a fraction, and a leap second exactly if
second 60 is written. -/
def whole (t : DateTime) : DateTime where
  date := t.date
  hour := t.hour
  minute := t.minute
  second := min t.writtenSecond 59
  nanosecond := if t.writtenSecond = 60 then 1000000000 else 0
  hour_lt := t.hour_lt
  minute_lt := t.minute_lt
  second_lt := by omega
  nanosecond_lt := by
    split <;> omega

theorem isWhole_whole (t : DateTime) : t.whole.IsWhole := by
  unfold IsWhole whole
  dsimp only
  split
  · next hleap => exact .inr ⟨by omega, rfl⟩
  · exact .inl rfl

theorem writtenSecond_whole (t : DateTime) : t.whole.writtenSecond = t.writtenSecond := by
  have hle := t.writtenSecond_le
  rw [writtenSecond, whole]
  dsimp only
  split <;> omega

/-- Two whole times that are written alike are one, since both read back. -/
theorem whole_eq_self_iff {t : DateTime} : t.whole = t ↔ t.IsWhole := by
  constructor
  · intro h
    rw [← h]
    exact t.isWhole_whole
  · intro h
    have hwhole := ofClock?_writtenSecond t.isWhole_whole
    rw [writtenSecond_whole] at hwhole
    exact Option.some.inj (hwhole.symm.trans (ofClock?_writtenSecond h))

theorem text_whole (t : DateTime) : t.whole.text = t.text := by
  simp only [text, clockText, writtenSecond_whole]
  rfl

end DateTime

namespace Value

/-- The value in whole seconds as they are written. -/
def whole : Value → Value
  | dateTime t => dateTime t.whole
  | v => v

/-- A time is whole, and everything else has no seconds. -/
def IsWhole : Value → Prop
  | dateTime t => t.IsWhole
  | _ => True

theorem whole_eq_self_iff {v : Value} : v.whole = v ↔ v.IsWhole := by
  cases v with
  | dateTime t => simp [whole, IsWhole, DateTime.whole_eq_self_iff]
  | _ => simp [whole, IsWhole]

/-! ## Texts between quotes -/

/-- What stands between the quotes of a day or a time. -/
def timeText : Value → List Char
  | date d => d.text
  | dateTime t => t.text
  | _ => []

theorem quoted_of_notMem {s : List Char} (h : '\'' ∉ s) : quoted s = '\'' :: (s ++ ['\'']) := by
  have hplain : s.flatMap (fun c => if c = '\'' then ['\'', '\''] else [c]) = s := by
    induction s with
    | nil => rfl
    | cons c s ih =>
      rw [List.mem_cons, not_or] at h
      simp [Ne.symm h.1, ih h.2]
  rw [quoted, hplain]
  rfl

theorem quote_notMem_padded (width n : Nat) : '\'' ∉ Numeral.padded width n := fun h =>
  absurd (Numeral.isDigit_of_mem_padded h) (by decide)

theorem quote_notMem_dateText (d : Date) : '\'' ∉ d.text := by
  have hyear : '\'' ∉ yearText d.year := by
    by_cases h : 0 ≤ d.year ∧ d.year ≤ 9999
    · rw [yearText_unsigned h]
      exact quote_notMem_padded _ _
    · rw [yearText_signed h]
      by_cases hneg : d.year < 0 <;> simp [hneg, quote_notMem_padded]
  rw [← List.append_nil d.text, Date.text_append]
  simp [hyear, quote_notMem_padded]

theorem quote_notMem_clockText (t : DateTime) : '\'' ∉ t.clockText := by
  rw [← List.append_nil t.clockText, DateTime.clockText_append]
  simp [quote_notMem_padded]

theorem literalChars_of_isTime {v : Value} (h : v.isTime = true) :
    v.literalChars = '\'' :: (v.timeText ++ ['\'']) := by
  cases v with
  | date d => exact quoted_of_notMem (quote_notMem_dateText d)
  | dateTime t =>
    refine quoted_of_notMem ?_
    simp [DateTime.text, quote_notMem_dateText, quote_notMem_clockText]
  | _ => cases h

theorem literal_of_isTime {v : Value} (h : v.isTime = true) :
    v.literal = "'" ++ String.ofList v.timeText ++ "'" := by
  rw [← String.toList_inj, literal, literalChars_of_isTime h]
  simp

/-! ## Reading back -/

theorem timeText_whole (v : Value) : v.whole.timeText = v.timeText := by
  cases v with
  | dateTime t => exact t.text_whole
  | _ => rfl

/-- A column of times reads the text of a whole time, and no other time has another text. -/
theorem coerce_timeText {v : Value} (h : v.isTime = true) :
    ColumnType.timestamp.coerce (.text (String.ofList v.timeText)) = v.whole := by
  cases v with
  | date d => exact ColumnType.coerce_of_writes (.day rfl d)
  | dateTime t =>
    rw [timeText, ← t.text_whole]
    exact ColumnType.coerce_of_writes (.spaced t.isWhole_whole)
  | _ => cases h

/-- There is no other text between the quotes. -/
theorem coerce_between {v : Value} (h : v.isTime = true) {s : String}
    (hs : v.literal = "'" ++ s ++ "'") : ColumnType.timestamp.coerce (.text s) = v.whole := by
  have hsame : String.ofList v.timeText = s := by
    rw [literal_of_isTime h, ← String.toList_inj] at hs
    rw [← String.toList_inj]
    simpa using hs
  rw [← hsame, coerce_timeText h]

theorem literal_eq_iff {v w : Value} (hv : v.isTime = true) (hw : w.isTime = true) :
    v.literal = w.literal ↔ v.whole = w.whole := by
  constructor
  · intro h
    rw [← coerce_timeText hw, coerce_between hv (h.trans (literal_of_isTime hw))]
  · intro h
    rw [literal_of_isTime hv, literal_of_isTime hw, ← timeText_whole v, h, timeText_whole]

theorem compareBy_notEq_self {v : Value} (h : v.isTime = true) : compareBy .notEq v v = .no := by
  have horder : v.hasOrder = true := by
    cases v <;> first | rfl | cases h
  rw [compareBy_comparison (by decide), compare?_self horder]
  rfl

/-- The literal of a day or a time reads back as the value in written seconds, which is the value
itself exactly if that is whole. Two values share a literal exactly if they are the same in written
seconds. So of two that compare as different and still share one, some is not whole. -/
theorem coerce_literal {v : Value} (h : v.isTime = true) :
    (∃ s, v.literal = "'" ++ s ++ "'" ∧
      ColumnType.timestamp.coerce (.text s) = v.whole) ∧
    (v.whole = v ↔ v.IsWhole) ∧
    ∀ w : Value, w.isTime = true → (v.literal = w.literal ↔ v.whole = w.whole) ∧
      (compareBy .notEq v w = .yes → v.literal = w.literal → ¬v.IsWhole ∨ ¬w.IsWhole) := by
  refine ⟨⟨_, literal_of_isTime h, coerce_timeText h⟩, whole_eq_self_iff, fun w hw =>
    ⟨literal_eq_iff h hw, fun hdiffer hsame => ?_⟩⟩
  by_contra hnone
  obtain ⟨hv, hw'⟩ : v.IsWhole ∧ w.IsWhole := by simpa only [not_or, not_not] using hnone
  have hvw : v = w := by
    rw [← whole_eq_self_iff.mpr hv, ← whole_eq_self_iff.mpr hw']
    exact (literal_eq_iff h hw).mp hsame
  rw [hvw, compareBy_notEq_self hw] at hdiffer
  cases hdiffer

/-- A leap second of a year with a sign reads back, and a time is told from the midnight before. -/
theorem coerce_literal_leap :
    let last : Date := ⟨10016, 12, 31, by decide, by decide, by decide⟩
    let leap : DateTime := ⟨last, 23, 59, 59, 1000000000, by decide, by decide, by decide, by decide⟩
    (∃ s, (dateTime leap).literal = "'" ++ s ++ "'" ∧
      ColumnType.timestamp.coerce (.text s) = dateTime leap) ∧
    (dateTime leap).literal ≠ (date last).literal := by
  intro last leap
  have hleap : (dateTime leap).IsWhole := .inr ⟨rfl, rfl⟩
  obtain ⟨⟨s, hs, hread⟩, hwhole, hothers⟩ := coerce_literal (v := dateTime leap) rfl
  rw [hwhole.mpr hleap] at hread
  obtain ⟨-, hfraction⟩ := hothers (date last) rfl
  refine ⟨⟨s, hs, hread⟩, fun hsame => ?_⟩
  have hdiffer : compareBy .notEq (dateTime leap) (date last) = .yes := by decide
  rcases hfraction hdiffer hsame with hfirst | hsecond
  · exact hfirst hleap
  · exact hsecond trivial

/-- Half a second is not written, so that it neither reads back nor tells two times apart. The mark
of a leap second behind second 30 is no part of a second, but it is written as second 31. -/
theorem literal_drops_fraction :
    (¬∀ v : Value, v.isTime = true → ∃ s, v.literal = "'" ++ s ++ "'" ∧
      ColumnType.timestamp.coerce (.text s) = v) ∧
    (¬∀ v w : Value, v.isTime = true → w.isTime = true →
      compareBy .notEq v w = .yes → v.literal ≠ w.literal) ∧
    ¬∀ t : DateTime, t.nanosecond % 1000000000 = 0 → ∃ s, (dateTime t).literal = "'" ++ s ++ "'" ∧
      ColumnType.timestamp.coerce (.text s) = dateTime t := by
  let day : Date := ⟨2021, 9, 1, by decide, by decide, by decide⟩
  let half : DateTime := ⟨day, 10, 0, 0, 500000000, by decide, by decide, by decide, by decide⟩
  let marked : DateTime := ⟨day, 10, 0, 30, 1000000000, by decide, by decide, by decide, by decide⟩
  have hkept {t : DateTime} (h : ∃ s, (dateTime t).literal = "'" ++ s ++ "'" ∧
      ColumnType.timestamp.coerce (.text s) = dateTime t) : t.IsWhole := by
    obtain ⟨s, hs, hread⟩ := h
    exact whole_eq_self_iff.mp ((coerce_between rfl hs).symm.trans hread)
  refine ⟨fun h => ?_, fun h => ?_, fun h => ?_⟩
  · exact absurd (hkept (h (dateTime half) rfl)) (by decide)
  · have hsame : (dateTime half).literal = (dateTime half.whole).literal :=
      (literal_eq_iff rfl rfl).mpr (congrArg dateTime (by decide))
    exact h (dateTime half) (dateTime half.whole) rfl rfl (by decide) hsame
  · exact absurd (hkept (h marked (by decide))) (by decide)

end Value

end RowPolicy
