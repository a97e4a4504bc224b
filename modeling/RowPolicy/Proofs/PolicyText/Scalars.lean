import RowPolicy.Proofs.Calendar.Reading
import RowPolicy.Proofs.PolicyText.Tokens

/-!
# Reading back scalars

A scalar in front of a text is read whole, as the value that it was written for, if the text behind
does not run on into it. The readers are tried one after the other, so each scalar has to be refused
by those that come first: digits with a point or without are no date, and what starts with a digit
is no word.
-/
namespace RowPolicy

theorem Numeral.value_lt {digits : List Char} (h : ∀ c ∈ digits, isDigit c = true) :
    value digits < 10 ^ digits.length := by
  have hfrom (n : Nat) : Nat.ofDigitChars 10 digits n < (n + 1) * 10 ^ digits.length := by
    induction digits generalizing n with
    | nil => simp
    | cons c digits ih =>
      obtain ⟨hc, hdigits⟩ := List.forall_mem_cons.mp h
      have hrange := toNat_of_isDigit hc
      have hdigit : c.toNat - '0'.toNat ≤ 9 := Nat.sub_le_of_le_add hrange.2
      rw [Nat.ofDigitChars_cons, List.length_cons]
      calc Nat.ofDigitChars 10 digits (10 * n + (c.toNat - '0'.toNat))
          < (10 * n + (c.toNat - '0'.toNat) + 1) * 10 ^ digits.length := ih hdigits _
        _ ≤ (n + 1) * 10 * 10 ^ digits.length := Nat.mul_le_mul_right _ (by omega)
        _ = (n + 1) * 10 ^ (digits.length + 1) := by ring
  simpa [value] using hfrom 0

namespace PolicyText

theorem digits?_eq_some {count n : Nat} {cs rest : List Char}
    (h : digits? count cs = some (n, rest)) :
    ∃ field, cs = field ++ rest ∧ field.length = count ∧
      ∀ c ∈ field, Numeral.isDigit c = true := by
  obtain ⟨⟨hlength, hall⟩, hfound⟩ := Option.ite_none_right_eq_some.mp h
  cases hfound
  exact ⟨cs.take count, (List.take_append_drop count cs).symm, hlength, List.all_eq_true.mp hall⟩

theorem lt_of_digits? {count n : Nat} {cs rest : List Char}
    (h : digits? count cs = some (n, rest)) : n < 10 ^ count := by
  obtain ⟨⟨hlength, hall⟩, hfound⟩ := Option.ite_none_right_eq_some.mp h
  cases hfound
  have hlt := Numeral.value_lt (List.all_eq_true.mp hall)
  rwa [hlength] at hlt

/-- A day starts with digits that end at a dash. -/
theorem calendarDay?_eq_some {cs : List Char} {day : (Nat × Nat × Nat) × List Char}
    (h : calendarDay? cs = some day) :
    ∃ field rest, cs = field ++ '-' :: rest ∧ field ≠ [] ∧
      ∀ c ∈ field, Numeral.isDigit c = true := by
  unfold calendarDay? at h
  obtain ⟨⟨year, rest⟩, hyear, h⟩ := Option.bind_eq_some_iff.mp h
  obtain ⟨after, hdash, -⟩ := Option.bind_eq_some_iff.mp h
  obtain ⟨field, rfl, hlength, hdigit⟩ := digits?_eq_some hyear
  cases rest with
  | nil => cases hdash
  | cons c rest =>
    have hc : '-' = c := by
      by_contra hne
      simp [literally?, hne] at hdash
    subst hc
    refine ⟨field, rest, rfl, ?_, hdigit⟩
    rintro rfl
    cases hlength

/-- Digits that end at anything but a dash start no day. -/
theorem calendarDay?_eq_none {field rest : List Char} (h : ∀ c ∈ field, Numeral.isDigit c = true)
    (stop : ∀ c ∈ rest.head?, Numeral.isDigit c = false ∧ c ≠ '-') :
    calendarDay? (field ++ rest) = none := by
  rw [Option.eq_none_iff_forall_ne_some]
  intro day hday
  obtain ⟨field', rest', heq, -, hdigit⟩ := calendarDay?_eq_some hday
  have hrest := (span_append h fun c hc => (stop c hc).1).2
  rw [heq, (span_append hdigit (by simp [Numeral.isDigit])).2] at hrest
  exact (stop '-' (by simp [← hrest])).2 rfl

theorem calendarDay?_of_isDigit_eq_false {c : Char} (h : Numeral.isDigit c = false)
    (cs : List Char) : calendarDay? (c :: cs) = none := by
  rw [Option.eq_none_iff_forall_ne_some]
  intro day hday
  obtain ⟨field, rest, heq, hne, hdigit⟩ := calendarDay?_eq_some hday
  obtain ⟨d, field, rfl⟩ := List.exists_cons_of_ne_nil hne
  cases heq
  rw [hdigit c (by simp)] at h
  cases h

theorem calendarDay?_text {d : Date} (h : 0 ≤ d.year ∧ d.year ≤ 9999) (rest : List Char) :
    calendarDay? (d.text ++ rest) = some ((d.year.natAbs, d.month, d.day), rest) := by
  have := d.day_lt
  have := d.month_mem
  have hyear := digits?_padded (Numeral.length_toDigits_le_four (n := d.year.natAbs) (by omega))
  have hmonth := digits?_padded (Numeral.length_toDigits_le_two (n := d.month) (by omega))
  have hday := digits?_padded (Numeral.length_toDigits_le_two (n := d.day) (by omega))
  simp [calendarDay?, Date.text_append, yearText_unsigned h, literally?, hyear, hmonth, hday]

theorem clockTime?_clockText (t : DateTime) (rest : List Char) :
    clockTime? ('T' :: (t.clockText ++ rest)) =
      some ((t.hour, t.minute, t.writtenSecond), rest) := by
  have := t.hour_lt
  have := t.minute_lt
  have := t.writtenSecond_le
  have hhour := digits?_padded (Numeral.length_toDigits_le_two (n := t.hour) (by omega))
  have hminute := digits?_padded (Numeral.length_toDigits_le_two (n := t.minute) (by omega))
  have hsecond := digits?_padded (Numeral.length_toDigits_le_two (n := t.writtenSecond) (by omega))
  simp [clockTime?, DateTime.clockText_append, literally?, hhour, hminute, hsecond]

theorem time?_date {d : Date} (h : 0 ≤ d.year ∧ d.year ≤ 9999) {rest : List Char}
    (stop : 'T' ∉ rest.head?) : time? (d.text ++ rest) = some (some (.date d), rest) := by
  have hof : Date.of? d.year.natAbs d.month d.day = some d := by
    rw [Int.natAbs_of_nonneg h.1, Date.of?_fields]
  have hclock : clockTime? rest = none := by
    cases rest with
    | nil => rfl
    | cons c rest =>
      have hc : 'T' ≠ c := fun hc => stop (by rw [hc]; rfl)
      simp [clockTime?, literally?, hc]
  rw [time?, calendarDay?_text h]
  simp only [hclock, hof, Option.map_some]

theorem time?_dateTime {t : DateTime} (h : 0 ≤ t.date.year ∧ t.date.year ≤ 9999)
    (whole : t.IsWhole) (rest : List Char) :
    time? (t.date.text ++ 'T' :: t.clockText ++ rest) = some (some (.dateTime t), rest) := by
  have hof : Date.of? t.date.year.natAbs t.date.month t.date.day = some t.date := by
    rw [Int.natAbs_of_nonneg h.1, Date.of?_fields]
  rw [List.append_assoc, List.cons_append]
  rw [time?, calendarDay?_text h]
  simp only [clockTime?_clockText, hof, DateTime.ofClock?_writtenSecond whole, Option.bind_some,
    Option.map_some]

/-! ## Numbers -/

theorem time?_of_calendarDay?_eq_none {cs : List Char} (h : calendarDay? cs = none) :
    time? cs = none := by
  simp [time?, h]

/-- What no name goes on with neither goes on with digits nor has a point. -/
theorem isDigit_eq_false_and_ne {rest : List Char} (stop : ∀ c ∈ rest.head?, isNameChar c = false) :
    ∀ c ∈ rest.head?, Numeral.isDigit c = false ∧ c ≠ '.' := by
  intro c hc
  refine ⟨isDigit_eq_false (stop c hc), ?_⟩
  rintro rfl
  exact absurd (stop '.' hc) (by decide)

theorem negative?_append {body rest : List Char} (hne : body ≠ [])
    (h : ∀ c ∈ body, Numeral.isDigit c = true ∨ c = '.')
    (stop : ∀ c ∈ rest.head?, Numeral.isDigit c = false ∧ c ≠ '.') :
    negative? ('-' :: (body ++ rest)) =
      if body.contains '.' then some ((Numeral.binary64? ('-' :: body)).map .float, rest)
      else some ((Numeral.int64? ('-' :: body)).map .int, rest) := by
  have hkind : ∀ c ∈ body, (Numeral.isDigit c || c == '.') = true := fun c hc => by
    simpa using h c hc
  have hstop : ∀ c ∈ rest.head?, (Numeral.isDigit c || c == '.') = false := fun c hc => by
    simpa using stop c hc
  rw [negative?, run?_append hne hkind hstop]

/-- A minus and digits are an integer, or nothing if it has more than 64 bits. -/
theorem negative?_integer {digits rest : List Char} (h : IsDigits digits)
    (stop : ∀ c ∈ rest.head?, Numeral.isDigit c = false ∧ c ≠ '.') :
    negative? ('-' :: (digits ++ rest)) =
      some ((Numeral.fit64? (-(Numeral.value digits))).map .int, rest) := by
  have hpoint : digits.contains '.' = false := by simpa using Numeral.point_notMem h.2
  have hint : Numeral.int64? ('-' :: digits) = Numeral.fit64? (-(Numeral.value digits)) :=
    Numeral.int64?_minusIf true h.1 h.2
  rw [negative?_append h.1 (fun c hc => .inl (h.2 c hc)) stop, hpoint, hint]
  rfl

theorem isDigits_toDigits (m : Nat) : IsDigits (Nat.toDigits 10 m) :=
  ⟨Nat.toDigits_ne_nil, fun _ => Numeral.isDigit_of_mem_toDigits⟩

theorem negative?_digits (m : Nat) {rest : List Char}
    (stop : ∀ c ∈ rest.head?, isNameChar c = false) :
    negative? ('-' :: (Nat.toDigits 10 m ++ rest)) =
      some ((Numeral.fit64? (-m)).map .int, rest) := by
  rw [negative?_integer (isDigits_toDigits m) (isDigit_eq_false_and_ne stop),
    Numeral.value_toDigits]

theorem negative?_float {whole places : List Char} (hne : whole ≠ [] ∨ places ≠ [])
    (hw : ∀ c ∈ whole, Numeral.isDigit c = true) (hp : ∀ c ∈ places, Numeral.isDigit c = true)
    {rest : List Char} (stop : ∀ c ∈ rest.head?, Numeral.isDigit c = false ∧ c ≠ '.') :
    negative? ('-' :: (whole ++ '.' :: places ++ rest)) =
      some (some (.float (.ofDecimal true (Numeral.value (whole ++ places)) (-places.length))),
        rest) := by
  have hbody := Numeral.isDigit_or_point hw fun c hc => .inl (hp c hc)
  have hpoint : (whole ++ '.' :: places).contains '.' = true := by simp
  have hfloat : Numeral.binary64? ('-' :: (whole ++ '.' :: places)) = _ :=
    Numeral.binary64?_decimal true hne hw hp
  rw [negative?_append (by simp) hbody stop, hpoint, hfloat]
  rfl

theorem decimal?_float {whole places : List Char} (hw : IsDigits whole) (hp : IsDigits places)
    {rest : List Char} (stop : ∀ c ∈ rest.head?, Numeral.isDigit c = false) :
    decimal? (whole ++ '.' :: (places ++ rest)) =
      some (some (.float (.ofDecimal false (Numeral.value (whole ++ places)) (-places.length))),
        rest) := by
  have hwhole : run? Numeral.isDigit (whole ++ '.' :: (places ++ rest)) =
      some (whole, '.' :: (places ++ rest)) := run?_append hw.1 hw.2 (by simp [Numeral.isDigit])
  have hplaces := run?_append hp.1 hp.2 stop
  have hfloat : Numeral.binary64? (whole ++ '.' :: places) = _ :=
    Numeral.binary64?_decimal false (.inl hw.1) hw.2 hp.2
  simp [decimal?, hwhole, literally?, hplaces, hfloat]

theorem decimal?_eq_none {digits rest : List Char} (h : IsDigits digits)
    (stop : ∀ c ∈ rest.head?, Numeral.isDigit c = false ∧ c ≠ '.') :
    decimal? (digits ++ rest) = none := by
  have hrun := run?_append h.1 h.2 fun c hc => (stop c hc).1
  have hpoint : literally? ['.'] rest = none := by
    cases rest with
    | nil => rfl
    | cons c rest => rw [literally?, if_neg (stop c rfl).2.symm]
  simp [decimal?, hrun, hpoint]

theorem counting?_append {digits rest : List Char} (h : IsDigits digits)
    (stop : ∀ c ∈ rest.head?, Numeral.isDigit c = false) :
    counting? (digits ++ rest) =
      if digits.head? = some '0' then none
      else (Numeral.fit64? (Numeral.value digits)).map fun n => (some (.int n), rest) := by
  have hint : Numeral.int64? digits = Numeral.fit64? (Numeral.value digits) :=
    Numeral.int64?_minusIf false h.1 h.2
  simp only [counting?, run?_append h.1 h.2 stop, Option.bind_eq_bind, Option.bind_some, hint]
  split
  · rfl
  · cases Numeral.fit64? (Numeral.value digits) <;> rfl

theorem integer?_cons {c : Char} (hzero : c ≠ '0') (hplus : c ≠ '+') (cs : List Char) :
    integer? (c :: cs) = counting? (c :: cs) := by
  unfold integer?
  split
  · next heq => cases heq; contradiction
  · next heq => cases heq; contradiction
  · rfl

/-- Of digits that start with a zero only the zero is read, and other digits are an integer, or
none if it has more than 64 bits. -/
theorem integer?_append {digits rest : List Char} (h : IsDigits digits)
    (stop : ∀ c ∈ rest.head?, Numeral.isDigit c = false) :
    integer? (digits ++ rest) =
      if digits.head? = some '0' then some (some (.int 0), digits.tail ++ rest)
      else (Numeral.fit64? (Numeral.value digits)).map fun n => (some (.int n), rest) := by
  have hcounting := counting?_append h stop
  obtain ⟨c, cs, rfl⟩ := List.exists_cons_of_ne_nil h.1
  have hplus : c ≠ '+' := Numeral.ne_of_isDigit (h.2 c (by simp)) rfl
  by_cases hzero : c = '0'
  · subst hzero
    rfl
  · have hhead : (c :: cs).head? ≠ some '0' := fun hhead => hzero (Option.some.inj hhead)
    rw [if_neg hhead] at hcounting ⊢
    rw [← hcounting, List.cons_append, integer?_cons hzero hplus]

theorem integer?_digits (m : Nat) {rest : List Char}
    (stop : ∀ c ∈ rest.head?, isNameChar c = false) :
    integer? (Nat.toDigits 10 m ++ rest) =
      (Numeral.fit64? m).map fun n => (some (.int n), rest) := by
  rw [integer?_append (isDigits_toDigits m) fun c hc => isDigit_eq_false (stop c hc),
    Numeral.value_toDigits]
  by_cases hm : m = 0
  · subst hm
    rfl
  · rw [if_neg (Numeral.head?_toDigits_ne hm)]

/-! ## The choice of a reader -/

theorem literally?_of_ne {w c : Char} (h : w ≠ c) (ws cs : List Char) :
    literally? (w :: ws) (c :: cs) = none := by
  rw [literally?, if_neg h]

/-- What starts with neither a quote nor a letter of a truth word is a time or a number. -/
theorem scalar?_cons {c : Char} (hquote : c ≠ '"') (ht : 't' ≠ c) (hf : 'f' ≠ c) (cs : List Char) :
    scalar? (c :: cs) =
      (time? (c :: cs)).or ((negative? (c :: cs)).or
        ((decimal? (c :: cs)).or (integer? (c :: cs)))) := by
  have htrue : literally? "true".toList (c :: cs) = none := literally?_of_ne ht _ cs
  have hfalse : literally? "false".toList (c :: cs) = none := literally?_of_ne hf _ cs
  unfold scalar?
  split
  · next heq => cases heq; exact absurd rfl hquote
  · rw [htrue, hfalse]
    rfl

theorem scalar?_minus {cs : List Char} {found : Option Value × List Char}
    (h : negative? ('-' :: cs) = some found) : scalar? ('-' :: cs) = some found := by
  have htime := time?_of_calendarDay?_eq_none (calendarDay?_of_isDigit_eq_false (c := '-') rfl cs)
  rw [scalar?_cons (by decide) (by decide) (by decide), htime, h]
  rfl

theorem scalar?_digits {digits rest : List Char} (h : IsDigits digits) :
    scalar? (digits ++ rest) =
      (time? (digits ++ rest)).or ((decimal? (digits ++ rest)).or (integer? (digits ++ rest))) := by
  obtain ⟨c, cs, rfl⟩ := List.exists_cons_of_ne_nil h.1
  have hdigit : Numeral.isDigit c = true := h.2 c (by simp)
  have hne {d : Char} (hd : Numeral.isDigit d = false) : d ≠ c := by
    rintro rfl
    rw [hdigit] at hd
    cases hd
  have hnegative : negative? (c :: (cs ++ rest)) = none := by
    unfold negative?
    split
    · next heq => cases heq; exact absurd hdigit (by decide)
    · rfl
  rw [List.cons_append, scalar?_cons (hne (by decide)).symm (hne (by decide)) (hne (by decide)),
    hnegative, Option.none_or]

/-- Digits that end at anything but a dash are tried as numbers at once. -/
theorem scalar?_number {digits rest : List Char} (h : IsDigits digits)
    (stop : ∀ c ∈ rest.head?, Numeral.isDigit c = false ∧ c ≠ '-') :
    scalar? (digits ++ rest) = (decimal? (digits ++ rest)).or (integer? (digits ++ rest)) := by
  rw [scalar?_digits h, time?_of_calendarDay?_eq_none (calendarDay?_eq_none h.2 stop),
    Option.none_or]

theorem isDigits_padded (count n : Nat) : IsDigits (Numeral.padded count n) :=
  ⟨Numeral.padded_ne_nil count n, fun _ => Numeral.isDigit_of_mem_padded⟩

theorem Apart.stop_digits {digits rest : List Char} (apart : Apart digits rest)
    (h : IsDigits digits) : ∀ c ∈ rest.head?, isNameChar c = false :=
  apart.stop h.1 fun c hc => isNameChar_of_isDigit (h.2 c hc)

/-- Digits alone are an integer, or no literal if it has more than 64 bits. -/
theorem scalar?_natural (m : Nat) {rest : List Char}
    (stop : ∀ c ∈ rest.head?, isNameChar c = false) (hdash : '-' ∉ rest.head?) :
    scalar? (Nat.toDigits 10 m ++ rest) =
      (Numeral.fit64? m).map fun n => (some (.int n), rest) := by
  have hdigits := isDigits_toDigits m
  have hstop : ∀ c ∈ rest.head?, Numeral.isDigit c = false ∧ c ≠ '-' := by
    refine fun c hc => ⟨isDigit_eq_false (stop c hc), ?_⟩
    rintro rfl
    exact hdash hc
  rw [scalar?_number hdigits hstop,
    decimal?_eq_none hdigits (isDigit_eq_false_and_ne stop), Option.none_or,
    integer?_digits m stop]

theorem scalar?_int {n : Int64} {m : Nat} {negative : Bool}
    (h : Numeral.negateIf negative m = n.toInt) {rest : List Char}
    (stop : ∀ c ∈ rest.head?, isNameChar c = false) (hdash : '-' ∉ rest.head?) :
    scalar? (Numeral.minusIf negative ++ Nat.toDigits 10 m ++ rest) =
      some (some (.int n), rest) := by
  have hfit := Numeral.fit64?_toInt n
  rw [← h] at hfit
  cases negative with
  | true =>
    have hread := scalar?_minus (negative?_digits m stop)
    rw [show Numeral.fit64? (-m) = some n from hfit] at hread
    exact hread
  | false =>
    have hread := scalar?_natural m stop hdash
    rw [show Numeral.fit64? m = some n from hfit] at hread
    exact hread

theorem scalar?_decimal {whole places : List Char} (negative : Bool) (hw : IsDigits whole)
    (hp : IsDigits places) {rest : List Char} (stop : ∀ c ∈ rest.head?, isNameChar c = false) :
    scalar? (Numeral.minusIf negative ++ (whole ++ '.' :: places) ++ rest) =
      some (some (.float (.ofDecimal negative (Numeral.value (whole ++ places)) (-places.length))),
        rest) := by
  cases negative with
  | true =>
    have hstop := isDigit_eq_false_and_ne stop
    exact scalar?_minus (negative?_float (.inl hw.1) hw.2 hp.2 hstop)
  | false =>
    have hread : scalar? (whole ++ '.' :: (places ++ rest)) = _ :=
      (scalar?_number hw (by simp [Numeral.isDigit])).trans
        (by rw [decimal?_float hw hp fun c hc => isDigit_eq_false (stop c hc), Option.some_or])
    rw [← hread]
    simp [Numeral.minusIf]

/-- The double nearest to a decimal is the one that is read. -/
theorem scalar?_float {x : Binary64} {whole places : List Char} {negative : Bool}
    (hw : IsDigits whole) (hp : IsDigits places) (nearest : Binary64.Rounds negative
      (Numeral.value (whole ++ places) * 10 ^ (-places.length : Int)) x)
    {rest : List Char} (stop : ∀ c ∈ rest.head?, isNameChar c = false) :
    scalar? (Numeral.minusIf negative ++ (whole ++ '.' :: places) ++ rest) =
      some (some (.float x), rest) := by
  rw [scalar?_decimal negative hw hp stop, nearest.unique (Binary64.rounds_ofDecimal ..)]

theorem scalar?_date {d : Date} (h : 0 ≤ d.year ∧ d.year ≤ 9999) {rest : List Char}
    (stop : ∀ c ∈ rest.head?, isNameChar c = false) :
    scalar? (d.text ++ rest) = some (some (.date d), rest) := by
  have htime := time?_date h fun hT => absurd (stop 'T' hT) (by decide)
  rw [Date.text_append, yearText_unsigned h] at htime ⊢
  rw [scalar?_digits (isDigits_padded _ _), htime, Option.some_or]

theorem scalar?_dateTime {t : DateTime} (h : 0 ≤ t.date.year ∧ t.date.year ≤ 9999)
    (whole : t.IsWhole) (rest : List Char) :
    scalar? (t.date.text ++ 'T' :: t.clockText ++ rest) = some (some (.dateTime t), rest) := by
  have htime := time?_dateTime h whole rest
  rw [List.append_assoc, Date.text_append, yearText_unsigned h] at htime ⊢
  rw [scalar?_digits (isDigits_padded _ _), htime, Option.some_or]

/-- A scalar is read whole, unless the text behind runs on into it. -/
theorem scalar?_append {v : Value} {token rest : List Char} (h : Scalar v token)
    (apart : Apart token rest) (hdash : '-' ∉ rest.head?) :
    scalar? (token ++ rest) = some (some v, rest) := by
  cases h with
  | text hparts => simp [scalar?, quoted?_append hparts rest]
  | isTrue => rfl
  | isFalse => rfl
  | @int n m negative hm =>
    have hlast : Apart (Nat.toDigits 10 m) rest := apart.of_append
    exact scalar?_int hm (hlast.stop_digits (isDigits_toDigits m)) hdash
  | @float x whole places negative hw hp nearest =>
    have hpoint : Apart (['.'] ++ places) rest := apart.of_append.of_append
    exact scalar?_float hw hp nearest (hpoint.of_append.stop_digits hp)
  | @date d hd =>
    have hday : Apart (['-'] ++ Numeral.padded 2 d.day) rest := Apart.of_append apart
    exact scalar?_date hd (hday.of_append.stop_digits (isDigits_padded 2 d.day))
  | @dateTime t ht whole => exact scalar?_dateTime ht whole rest

theorem IsDigits.head {digits : List Char} (h : IsDigits digits) (rest : List Char) :
    ∃ c ∈ (digits ++ rest).head?, Numeral.isDigit c = true := by
  obtain ⟨c, cs, rfl⟩ := List.exists_cons_of_ne_nil h.1
  exact ⟨c, rfl, h.2 c (by simp)⟩

/-- What a scalar may start with. -/
theorem Scalar.head {v : Value} {token : List Char} (h : Scalar v token) :
    ∃ c ∈ token.head?, c = '"' ∨ c = 't' ∨ c = 'f' ∨ c = '-' ∨ Numeral.isDigit c = true := by
  have hdigits {digits : List Char} (hd : IsDigits digits) (rest : List Char) :
      ∃ c ∈ (digits ++ rest).head?,
        c = '"' ∨ c = 't' ∨ c = 'f' ∨ c = '-' ∨ Numeral.isDigit c = true := by
    obtain ⟨c, hc, hdigit⟩ := hd.head rest
    exact ⟨c, hc, by simp [hdigit]⟩
  cases h with
  | text => exact ⟨_, rfl, .inl rfl⟩
  | isTrue => exact ⟨_, rfl, .inr (.inl rfl)⟩
  | isFalse => exact ⟨_, rfl, .inr (.inr (.inl rfl))⟩
  | @int n m negative hm =>
    cases negative with
    | true => exact ⟨_, rfl, by simp⟩
    | false => simpa [Numeral.minusIf] using hdigits (isDigits_toDigits m) []
  | float negative hw hp =>
    cases negative with
    | true => exact ⟨_, rfl, by simp⟩
    | false => exact hdigits hw _
  | date hd =>
    rw [← List.append_nil (Date.text _), Date.text_append, yearText_unsigned hd]
    exact hdigits (isDigits_padded _ _) _
  | dateTime ht =>
    rw [Date.text_append, yearText_unsigned ht]
    exact hdigits (isDigits_padded _ _) _

/-- What else starts no scalar. -/
theorem scalar?_eq_none {c : Char} (h : c ∉ ['"', 't', 'f', '-', '+'])
    (hdigit : Numeral.isDigit c = false) (rest : List Char) : scalar? (c :: rest) = none := by
  simp only [List.mem_cons, List.not_mem_nil, or_false, not_or] at h
  obtain ⟨hquote, ht, hf, hminus, hplus⟩ := h
  have htime := time?_of_calendarDay?_eq_none (calendarDay?_of_isDigit_eq_false hdigit rest)
  have hrun : run? Numeral.isDigit (c :: rest) = none := by simp [run?, hdigit]
  have hzero : c ≠ '0' := by
    rintro rfl
    cases hdigit
  rw [scalar?_cons hquote (Ne.symm ht) (Ne.symm hf), htime]
  simp [negative?, decimal?, integer?, counting?, hrun, hminus, hplus, hzero]

/-- A closing bracket is no beginning of a scalar. -/
theorem scalar?_bracket (rest : List Char) : scalar? (']' :: rest) = none :=
  scalar?_eq_none (by decide) rfl rest

end PolicyText

end RowPolicy
