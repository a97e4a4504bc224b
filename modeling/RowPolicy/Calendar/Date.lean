import RowPolicy.Number.Numeral

/-!
# Dates and date-times

Days of the proleptic Gregorian calendar, and seconds of such days with a fraction in
nanoseconds. Both types hold valid combinations only. A fraction of a whole second or more marks a
leap second. The mark may stand behind any second and counts where the second is written, so that
only behind second 59 second 60 is written.

Order compares an index that grows with time, so comparisons are linear arithmetic on the fields.
-/
namespace RowPolicy

def IsLeapYear (year : Int) : Prop := (4 ∣ year ∧ ¬ 100 ∣ year) ∨ 400 ∣ year

instance (year : Int) : Decidable (IsLeapYear year) := inferInstanceAs (Decidable (_ ∨ _))

def daysInMonth (year : Int) (month : Nat) : Nat :=
  if month = 2 then if IsLeapYear year then 29 else 28
  else if month = 4 ∨ month = 6 ∨ month = 9 ∨ month = 11 then 30
  else 31

theorem daysInMonth_le (year : Int) (month : Nat) : daysInMonth year month ≤ 31 := by
  unfold daysInMonth; split <;> split <;> omega

/-- Text of a field with at least two digits. -/
def twoDigits (n : Nat) : List Char :=
  let digits := Nat.toDigits 10 n
  List.replicate (2 - digits.length) '0' ++ digits

/-- Text of a field with at least four digits. -/
def fourDigits (n : Nat) : List Char :=
  let digits := Nat.toDigits 10 n
  List.replicate (4 - digits.length) '0' ++ digits

/-- A year outside 0 to 9999 has a sign. -/
def yearText (year : Int) : List Char :=
  if 0 ≤ year ∧ year ≤ 9999 then fourDigits year.natAbs
  else (if year < 0 then '-' else '+') :: fourDigits year.natAbs

structure Date where
  year : Int
  month : Nat
  day : Nat
  year_mem : -262143 ≤ year ∧ year ≤ 262142
  month_mem : 1 ≤ month ∧ month ≤ 12
  day_mem : 1 ≤ day ∧ day ≤ daysInMonth year month
  deriving DecidableEq

namespace Date

def of? (year : Int) (month day : Nat) : Option Date :=
  if h : (-262143 ≤ year ∧ year ≤ 262142) ∧ (1 ≤ month ∧ month ≤ 12) ∧
      1 ≤ day ∧ day ≤ daysInMonth year month then
    some ⟨year, month, day, h.1, h.2.1, h.2.2⟩
  else none

theorem of?_fields (d : Date) : of? d.year d.month d.day = some d := by
  simp [of?, d.year_mem, d.month_mem, d.day_mem]

/-- Grows by one from a day to the next and by more where a month ends early. -/
def index (d : Date) : Int := (d.year * 16 + d.month) * 32 + d.day

protected def compare (d e : Date) : Ordering := Ord.compare d.index e.index

theorem day_lt (d : Date) : d.day < 32 := by
  have := d.day_mem.2; have := daysInMonth_le d.year d.month; omega

theorem index_injective {d e : Date} (h : d.index = e.index) : d = e := by
  have := d.day_lt; have := e.day_lt
  have := d.month_mem; have := e.month_mem
  unfold index at h
  have year : d.year = e.year := by omega
  have month : d.month = e.month := by omega
  have day : d.day = e.day := by omega
  cases d; cases e; simp_all

/-- Year, month and day with dashes between them. -/
def text (d : Date) : List Char :=
  yearText d.year ++ '-' :: twoDigits d.month ++ '-' :: twoDigits d.day

end Date

structure DateTime where
  date : Date
  hour : Nat
  minute : Nat
  second : Nat
  nanosecond : Nat
  hour_lt : hour < 24
  minute_lt : minute < 60
  second_lt : second < 60
  nanosecond_lt : nanosecond < 2000000000
  deriving DecidableEq

namespace DateTime

def of? (date : Date) (hour minute second nanosecond : Nat) : Option DateTime :=
  if h : hour < 24 ∧ minute < 60 ∧ second < 60 ∧ nanosecond < 2000000000 then
    some ⟨date, hour, minute, second, nanosecond, h.1, h.2.1, h.2.2.1, h.2.2.2⟩
  else none

/-- A date-time whose second may be written as 60. -/
def ofClock? (date : Date) (hour minute second : Nat) : Option DateTime :=
  if second = 60 then of? date hour minute 59 1000000000 else of? date hour minute second 0

def midnight (date : Date) : DateTime :=
  ⟨date, 0, 0, 0, 0, by decide, by decide, by decide, by decide⟩

def index (t : DateTime) : Int :=
  (((t.date.index * 24 + t.hour) * 60 + t.minute) * 60 + t.second) * 2000000000 + t.nanosecond

protected def compare (t u : DateTime) : Ordering := Ord.compare t.index u.index

/-- The second as it is written. -/
def writtenSecond (t : DateTime) : Nat := t.second + t.nanosecond / 1000000000

/-- Hour, minute and second with colons between them. -/
def clockText (t : DateTime) : List Char :=
  twoDigits t.hour ++ ':' :: twoDigits t.minute ++ ':' :: twoDigits t.writtenSecond

/-- Date and clock with a space between them; a fraction of a second is not written. -/
def text (t : DateTime) : List Char := t.date.text ++ ' ' :: t.clockText

end DateTime

end RowPolicy
