import Mathlib.Data.List.Basic
import Mathlib.Data.List.TakeWhile
import RowPolicy.Calendar.Reading
import RowPolicy.Proofs.Number.Digits

/-!
# Dates and times that read back

A written date is read from the front of any text, whatever the sign and the number of digits of its
year, and a written clock likewise. So the text of a date denotes that date, and with a clock behind
a `T` or a space it denotes the time, provided that the time is whole: a leap second is written as
second 60, and no fraction is written.

No text denotes both a date and a time.
-/
namespace RowPolicy

/-! ## Texts in fields -/

theorem yearText_unsigned {year : Int} (h : 0 ≤ year ∧ year ≤ 9999) :
    yearText year = Numeral.padded 4 year.natAbs := by
  simp [yearText, h, Numeral.fourDigits_eq]

theorem yearText_signed {year : Int} (h : ¬(0 ≤ year ∧ year ≤ 9999)) :
    yearText year = (if year < 0 then '-' else '+') :: Numeral.padded 4 year.natAbs := by
  simp [yearText, h, Numeral.fourDigits_eq]

theorem Date.text_append (d : Date) (rest : List Char) :
    d.text ++ rest = yearText d.year ++
      '-' :: (Numeral.padded 2 d.month ++ '-' :: (Numeral.padded 2 d.day ++ rest)) := by
  simp [text, Numeral.twoDigits_eq]

theorem DateTime.clockText_append (t : DateTime) (rest : List Char) :
    t.clockText ++ rest = Numeral.padded 2 t.hour ++
      ':' :: (Numeral.padded 2 t.minute ++ ':' :: (Numeral.padded 2 t.writtenSecond ++ rest)) := by
  simp [clockText, Numeral.twoDigits_eq]

theorem Date.of?_eq_some {year : Int} {month day : Nat} {d : Date}
    (h : of? year month day = some d) : d.year = year ∧ d.month = month ∧ d.day = day := by
  unfold of? at h
  split at h <;> cases h
  exact ⟨rfl, rfl, rfl⟩

namespace DateTime

/-- No fraction at all, or behind second 59 the mark of a leap second and nothing more. -/
def IsWhole (t : DateTime) : Prop := t.nanosecond = 0 ∨ t.second = 59 ∧ t.nanosecond = 1000000000

instance (t : DateTime) : Decidable t.IsWhole := inferInstanceAs (Decidable (_ ∨ _))

/-- A whole time is told by the written second, which is 60 only for a leap second. -/
theorem ofClock?_writtenSecond {t : DateTime} (whole : t.IsWhole) :
    ofClock? t.date t.hour t.minute t.writtenSecond = some t := by
  have hsecond := t.second_lt
  have hof : of? t.date t.hour t.minute t.second t.nanosecond = some t := by
    simp [of?, t.hour_lt, t.minute_lt, t.second_lt, t.nanosecond_lt]
  rw [← hof, ofClock?, writtenSecond]
  rcases whole with hzero | ⟨hlast, hmark⟩
  · rw [hzero, if_neg (by omega)]
    simp
  · rw [hmark, hlast, if_pos (by omega)]

/-- A clock denotes whole times only. -/
theorem ofClock?_eq_some {d : Date} {hour minute second : Nat} {t : DateTime}
    (h : ofClock? d hour minute second = some t) : t.date = d ∧ t.IsWhole := by
  unfold ofClock? of? at h
  split at h
  · split at h <;> cases h
    exact ⟨rfl, .inr ⟨rfl, rfl⟩⟩
  · split at h <;> cases h
    exact ⟨rfl, .inl rfl⟩

theorem writtenSecond_le (t : DateTime) : t.writtenSecond ≤ 60 := by
  have := t.second_lt
  have := t.nanosecond_lt
  unfold writtenSecond
  omega

end DateTime

namespace Calendar

/-! ## Fields -/

theorem isBlank_eq_false_of_isDigit {c : Char} (h : Numeral.isDigit c = true) :
    isBlank c = false := by
  have hbounds := Numeral.toNat_of_isDigit h
  simp only [isBlank, Bool.or_eq_false_iff, Bool.and_eq_false_iff, decide_eq_false_iff_not,
    beq_eq_false_iff_ne]
  omega

theorem trimStart_eq_self {cs : List Char} (h : ∀ c ∈ cs.head?, isBlank c = false) :
    trimStart cs = cs := by
  have hnone : ∀ c ∈ ([] : List Char), isBlank c = true := by simp
  exact (span_append hnone h).2

theorem head_padded {width n : Nat} {rest : List Char} :
    ∀ c ∈ (Numeral.padded width n ++ rest).head?, Numeral.isDigit c = true := by
  intro c hc
  rw [List.head?_append_of_ne_nil _ (Numeral.padded_ne_nil width n)] at hc
  exact Numeral.isDigit_of_mem_padded (List.mem_of_head? hc)

/-- A field of digits has no white space in front. -/
theorem trimStart_padded (width n : Nat) (rest : List Char) :
    trimStart (Numeral.padded width n ++ rest) = Numeral.padded width n ++ rest :=
  trimStart_eq_self fun c hc => isBlank_eq_false_of_isDigit (head_padded c hc)

/-- A field ends at its width, whatever stands behind. -/
theorem field?_padded {width n : Nat} (h : (Nat.toDigits 10 n).length ≤ width) (rest : List Char) :
    field? width (Numeral.padded width n ++ rest) = some (n, rest) := by
  have hlength := Numeral.length_padded h
  have htake : (Numeral.padded width n ++ rest).take width = Numeral.padded width n :=
    List.take_left' hlength
  have hdigits : (Numeral.padded width n).takeWhile Numeral.isDigit = Numeral.padded width n :=
    List.takeWhile_eq_self_iff.mpr fun c hc => Numeral.isDigit_of_mem_padded hc
  simp [field?, trimStart_padded, htake, hdigits, Numeral.padded_ne_nil, Numeral.value_padded]

theorem signedYear?_padded (negative : Bool) (n : Nat) {rest : List Char}
    (stop : ∀ c ∈ rest.head?, Numeral.isDigit c = false) :
    signedYear? negative (Numeral.padded 4 n ++ rest) =
      some (Numeral.negateIf negative n, rest) := by
  have hdigits : ∀ c ∈ Numeral.padded 4 n, Numeral.isDigit c = true := fun c hc =>
    Numeral.isDigit_of_mem_padded hc
  have htake := (span_append hdigits stop).1
  simp [signedYear?, htake, Numeral.padded_ne_nil, Numeral.value_padded]

theorem year?_padded {n : Nat} (h : n < 10000) (rest : List Char) :
    year? (Numeral.padded 4 n ++ rest) = some ((n : Int), rest) := by
  rw [year?, trimStart_padded]
  split
  · next heq => exact absurd (head_padded '-' (by rw [heq]; rfl)) (by decide)
  · next heq => exact absurd (head_padded '+' (by rw [heq]; rfl)) (by decide)
  · rw [field?_padded (Numeral.length_toDigits_le_four h), Option.map_some]

theorem year?_minus (rest : List Char) : year? ('-' :: rest) = signedYear? true rest := rfl

theorem year?_plus (rest : List Char) : year? ('+' :: rest) = signedYear? false rest := rfl

/-- A year without a sign has four digits, and one with a sign goes up to the dash. -/
theorem year?_yearText (year : Int) (rest : List Char) :
    year? (yearText year ++ '-' :: rest) = some (year, '-' :: rest) := by
  have hdash : ∀ c ∈ ('-' :: rest).head?, Numeral.isDigit c = false := by simp [Numeral.isDigit]
  by_cases h : 0 ≤ year ∧ year ≤ 9999
  · rw [yearText_unsigned h, year?_padded (by omega), Int.natAbs_of_nonneg h.1]
  · rw [yearText_signed h]
    by_cases hneg : year < 0
    · have hyear : Numeral.negateIf true year.natAbs = year := by
        simp only [Numeral.negateIf, if_true]
        omega
      rw [if_pos hneg, List.cons_append, year?_minus, signedYear?_padded true _ hdash, hyear]
    · have hyear : Numeral.negateIf false year.natAbs = year := by
        simp only [Numeral.negateIf, Bool.false_eq_true, if_false]
        omega
      rw [if_neg hneg, List.cons_append, year?_plus, signedYear?_padded false _ hdash, hyear]

/-! ## Dates and clocks -/

theorem date?_text (d : Date) (rest : List Char) : date? (d.text ++ rest) = some (d, rest) := by
  have := d.day_lt
  have := d.month_mem
  have hmonth := field?_padded (Numeral.length_toDigits_le_two (n := d.month) (by omega))
  have hday := field?_padded (Numeral.length_toDigits_le_two (n := d.day) (by omega))
  simp [date?, Date.text_append, year?_yearText, literal?, hmonth, hday, Date.of?_fields]

theorem clock?_clockText {t : DateTime} (whole : t.IsWhole) (rest : List Char) :
    clock? t.date (t.clockText ++ rest) = some (t, rest) := by
  have := t.hour_lt
  have := t.minute_lt
  have := t.writtenSecond_le
  have hhour := field?_padded (Numeral.length_toDigits_le_two (n := t.hour) (by omega))
  have hminute := field?_padded (Numeral.length_toDigits_le_two (n := t.minute) (by omega))
  have hsecond := field?_padded (Numeral.length_toDigits_le_two (n := t.writtenSecond) (by omega))
  simp [clock?, DateTime.clockText_append, literal?, hhour, hminute, hsecond,
    DateTime.ofClock?_writtenSecond whole]

theorem complete?_eq_some_iff {α : Type} {found : Option (α × List Char)} {a : α} :
    complete? found = some a ↔ found = some (a, []) := by
  rcases found with - | ⟨b, - | ⟨c, cs⟩⟩ <;> simp [complete?]

end Calendar

/-! ## Whole texts -/

open Calendar

theorem Date.ofText?_text (d : Date) : ofText? d.text = some d := by
  rw [ofText?, complete?_eq_some_iff]
  simpa using date?_text d []

namespace DateTime

variable {t : DateTime}

theorem complete?_clockText (whole : t.IsWhole) :
    complete? (clock? t.date t.clockText) = some t := by
  rw [complete?_eq_some_iff]
  simpa using clock?_clockText whole []

theorem ofText?_marked (whole : t.IsWhole) :
    ofText? (t.date.text ++ 'T' :: t.clockText) = some t := by
  have hmarked : ofMarkedText? (t.date.text ++ 'T' :: t.clockText) = some t := by
    simp [ofMarkedText?, date?_text, literal?, complete?_clockText whole]
  rw [ofText?, hmarked, Option.some_or]

theorem ofText?_text (whole : t.IsWhole) : ofText? t.text = some t := by
  have hmarked : ofMarkedText? t.text = none := by
    simp [ofMarkedText?, text, date?_text, literal?]
  have hclock : trimStart (' ' :: t.clockText) = t.clockText := by
    have hblank : ∀ c ∈ [' '], isBlank c = true := by simp [isBlank]
    have hhead : ∀ c ∈ t.clockText.head?, isBlank c = false := by
      intro c hc
      rw [← List.append_nil t.clockText, clockText_append] at hc
      exact isBlank_eq_false_of_isDigit (head_padded c hc)
    exact (span_append hblank hhead).2
  have hspaced : ofSpacedText? t.text = some t := by
    simp [ofSpacedText?, text, date?_text, hclock, complete?_clockText whole]
  rw [ofText?, hmarked, hspaced, Option.none_or]

/-- Behind a date that is a whole text there is no clock. -/
theorem ofText?_eq_none {cs : List Char} {d : Date} (h : Date.ofText? cs = some d) :
    ofText? cs = none := by
  have hdate : date? cs = some (d, []) := complete?_eq_some_iff.mp h
  have hmarked : ofMarkedText? cs = none := by simp [ofMarkedText?, hdate, literal?]
  have hspaced : ofSpacedText? cs = none := by
    simp [ofSpacedText?, hdate, clock?, field?, trimStart, complete?]
  rw [ofText?, hmarked, hspaced, Option.or_none]

end DateTime

end RowPolicy
