import RowPolicy.Proofs.Json.Spelling

/-!
# Numerals

A numeral is read to its end, and what is read does not depend on what stands behind it: so
`number_append` says for numerals of any kind. An integer of 64 bits in plain decimal is read as
that integer by `number_decimal`. Where a numeral is not used, `skipNumber_append` finds its end.
-/
namespace RowPolicy.Json

/-- No character that a numeral could go on with. -/
def EndsNumeral (rest : List Char) : Prop :=
  ∀ c ∈ rest.head?, Numeral.isDigit c = false ∧ c ≠ '.' ∧ c ≠ 'e' ∧ c ≠ 'E'

/-- What was read, with more behind it. -/
def withRest {α : Type} (reading : Reading α) (more : List Char) : Reading α :=
  reading.map fun (a, rest) => (a, rest ++ more)

/-! ## Digits -/

theorem span_digits {digits rest : List Char} (h : IsDigits digits)
    (stop : ∀ c ∈ rest.head?, Numeral.isDigit c = false) :
    (digits ++ rest).takeWhile Numeral.isDigit = digits ∧
      (digits ++ rest).dropWhile Numeral.isDigit = rest :=
  span_append h.2 stop

theorem IsDigits.exists_cons {digits : List Char} (h : IsDigits digits) :
    ∃ c cs, digits = c :: cs ∧ Numeral.isDigit c = true := by
  obtain ⟨c, cs, rfl⟩ := List.exists_cons_of_ne_nil h.1
  exact ⟨c, cs, rfl, h.2 c (by simp)⟩

/-- A zero in front of other digits is refused, and there is none. -/
theorem IsWhole.not_leadingZero {c : Char} {tail cs : List Char} (h : IsWhole (c :: tail))
    (stop : ∀ c ∈ cs.head?, Numeral.isDigit c = false) :
    ¬ (c = '0' ∧ (tail ++ cs).head?.any Numeral.isDigit = true) := by
  rintro ⟨rfl, hany⟩
  obtain rfl : tail = [] := by simpa using h.2 rfl
  cases cs with
  | nil => cases hany
  | cons d cs =>
    rw [List.nil_append, List.head?_cons, Option.any_some, stop d rfl] at hany
    cases hany

theorem IsFraction.head {fraction : List Char} (h : IsFraction fraction) :
    ∀ c ∈ fraction.head?, c = '.' := by
  cases h <;> simp

theorem IsExponent.head {exponent : List Char} (h : IsExponent exponent) :
    ∀ c ∈ exponent.head?, c = 'e' ∨ c = 'E' := by
  cases h with
  | none => simp
  | digits hletter => simpa using hletter

/-- Digits end where a fraction, an exponent or the end of the numeral follows. -/
theorem EndsNumeral.stop {fraction exponent rest : List Char} (h : EndsNumeral rest)
    (hfraction : IsFraction fraction) (hexponent : IsExponent exponent) :
    ∀ c ∈ (fraction ++ (exponent ++ rest)).head?, Numeral.isDigit c = false := by
  intro c hc
  rw [List.head?_append, List.head?_append, Option.mem_def, Option.or_eq_some_iff,
    Option.or_eq_some_iff] at hc
  rcases hc with hc | ⟨-, hc | ⟨-, hc⟩⟩
  · rw [hfraction.head c hc]
    rfl
  · rcases hexponent.head c hc with rfl | rfl <;> rfl
  · exact (h c hc).1

/-! ## Numerals that are used -/

section

variable {rest : List Char}

theorem exponentDigits_append {digits : List Char} (h : IsDigits digits) (stop : EndsNumeral rest)
    (negative lowered : Bool) (s : Scale) :
    exponentDigits negative lowered s (digits ++ rest) =
      withRest (exponentDigits negative lowered s digits) rest := by
  obtain ⟨htake, hdrop⟩ := span_digits h fun c hc => (stop c hc).1
  have hend : ∀ c ∈ ([] : List Char).head?, Numeral.isDigit c = false := by simp
  obtain ⟨htake', hdrop'⟩ := span_digits h hend
  rw [List.append_nil] at htake' hdrop'
  obtain ⟨c, cs, rfl, hc⟩ := h.exists_cons
  rw [List.cons_append] at htake hdrop ⊢
  simp only [exponentDigits, hc, htake, hdrop, htake', hdrop', withRest, Bool.not_true,
    Bool.false_eq_true, if_false]
  split
  · split <;> rfl
  · split <;> rfl

theorem exponentPart_nil (stop : EndsNumeral rest) (negative : Bool) (s : Scale) :
    exponentPart negative s rest = (s.number negative).map fun n => (n, rest) := by
  have hne {letter : Char} (hletter : letter = 'e' ∨ letter = 'E') (tail : List Char) :
      rest ≠ letter :: tail := by
    rintro rfl
    obtain ⟨-, -, he, hE⟩ := stop letter rfl
    exact hletter.elim he hE
  unfold exponentPart
  split
  case h_7 => cases s.number negative <;> rfl
  all_goals first | exact absurd rfl (hne (.inl rfl) _) | exact absurd rfl (hne (.inr rfl) _)

/-- Only a minus sign lowers the exponent. -/
theorem exponentPart_letter {letter : Char} (hletter : letter = 'e' ∨ letter = 'E')
    {sign : List Char} (hsign : sign = [] ∨ sign = ['+'] ∨ sign = ['-']) {cs : List Char}
    (hcs : ∀ c ∈ cs.head?, Numeral.isDigit c = true) (negative : Bool) (s : Scale) :
    exponentPart negative s (letter :: (sign ++ cs)) =
      exponentDigits negative (sign == ['-']) s cs := by
  rcases hsign with rfl | rfl | rfl
  · have hne {c : Char} (hc : Numeral.isDigit c = false) (tail : List Char) : cs ≠ c :: tail := by
      rintro rfl
      rw [hcs c rfl] at hc
      cases hc
    rcases hletter with rfl | rfl <;>
    · rw [List.nil_append, exponentPart]
      · rfl
      · exact hne rfl
      · exact hne rfl
  · rcases hletter with rfl | rfl <;> rfl
  · rcases hletter with rfl | rfl <;> rfl

theorem exponentPart_append {exponent : List Char} (h : IsExponent exponent)
    (stop : EndsNumeral rest) (negative : Bool) (s : Scale) :
    exponentPart negative s (exponent ++ rest) =
      withRest (exponentPart negative s exponent) rest := by
  cases h with
  | none =>
    have hnil : EndsNumeral [] := by simp [EndsNumeral]
    rw [List.nil_append, exponentPart_nil stop, exponentPart_nil hnil]
    cases s.number negative <;> rfl
  | @digits _ _ digits hletter hsign h =>
    have hhead (more : List Char) : ∀ c ∈ (digits ++ more).head?, Numeral.isDigit c = true := by
      obtain ⟨c, cs, rfl, hc⟩ := h.exists_cons
      simpa using hc
    have hhead' := hhead []
    rw [List.append_nil] at hhead'
    rw [List.cons_append, List.append_assoc, exponentPart_letter hletter hsign (hhead rest),
      exponentPart_letter hletter hsign hhead', exponentDigits_append h stop]

theorem fractionPart_digits {places cs : List Char} (h : IsDigits places)
    (stop : ∀ c ∈ cs.head?, Numeral.isDigit c = false) (negative : Bool) (s : Scale) :
    fractionPart negative s (places ++ cs) = exponentPart negative (keepPlaces s places) cs := by
  obtain ⟨htake, hdrop⟩ := span_digits h stop
  obtain ⟨c, tail, rfl, hc⟩ := h.exists_cons
  rw [List.cons_append] at htake hdrop ⊢
  simp only [fractionPart, hc, htake, hdrop, Bool.not_true, Bool.false_eq_true, if_false]

theorem fractionPart_append {places exponent : List Char} (hplaces : IsDigits places)
    (hexponent : IsExponent exponent) (stop : EndsNumeral rest) (negative : Bool) (s : Scale) :
    fractionPart negative s (places ++ (exponent ++ rest)) =
      withRest (fractionPart negative s (places ++ exponent)) rest := by
  have hnil : EndsNumeral [] := by simp [EndsNumeral]
  have hstop := stop.stop .none hexponent
  have hstop' := hnil.stop .none hexponent
  rw [List.nil_append] at hstop hstop'
  rw [List.append_nil] at hstop'
  rw [fractionPart_digits hplaces hstop, fractionPart_digits hplaces hstop',
    exponentPart_append hexponent stop]

/-- What follows the digits before the point, of which some were kept and some dropped. -/
def afterWhole (negative : Bool) (kept : Nat × Nat) (cs : List Char) : Reading Number :=
  match cs with
  | '.' :: rest => fractionPart negative ⟨kept.1, kept.2⟩ rest
  | rest =>
    match rest with
    | 'e' :: _ | 'E' :: _ => exponentPart negative ⟨kept.1, kept.2⟩ rest
    | _ =>
      if kept.2 = 0 then .ok (wholeNumber negative kept.1, rest)
      else exponentPart negative ⟨kept.1, kept.2⟩ rest

theorem numberBody_append {whole cs : List Char} (h : IsWhole whole)
    (stop : ∀ c ∈ cs.head?, Numeral.isDigit c = false) (negative : Bool) :
    numberBody negative (whole ++ cs) = afterWhole negative (keepWhole 0 whole) cs := by
  obtain ⟨htake, hdrop⟩ := span_digits h.1 stop
  obtain ⟨c, tail, rfl, hc⟩ := h.1.exists_cons
  have hzero := h.not_leadingZero stop
  rw [List.cons_append] at htake hdrop ⊢
  simp only [numberBody, hc, htake, hdrop, hzero, Bool.not_true, Bool.false_eq_true, if_false]
  rfl

/-- Behind the digits the end of the numeral makes a number of what was kept. -/
theorem afterWhole_nil (stop : EndsNumeral rest) (negative : Bool) (kept : Nat × Nat) :
    afterWhole negative kept rest =
      if kept.2 = 0 then .ok (wholeNumber negative kept.1, rest)
      else (Scale.number negative ⟨kept.1, kept.2⟩).map fun n => (n, rest) := by
  rw [← exponentPart_nil stop]
  cases rest with
  | nil => rfl
  | cons c cs =>
    obtain ⟨-, hpoint, he, hE⟩ := stop c rfl
    unfold afterWhole
    split
    · next heq => exact absurd (List.head_eq_of_cons_eq heq) hpoint
    · split
      · next heq => exact absurd (List.head_eq_of_cons_eq heq) he
      · next heq => exact absurd (List.head_eq_of_cons_eq heq) hE
      · rfl

theorem afterWhole_append {fraction exponent : List Char} (hfraction : IsFraction fraction)
    (hexponent : IsExponent exponent) (stop : EndsNumeral rest) (negative : Bool)
    (kept : Nat × Nat) :
    afterWhole negative kept (fraction ++ (exponent ++ rest)) =
      withRest (afterWhole negative kept (fraction ++ exponent)) rest := by
  have hnil : EndsNumeral [] := by simp [EndsNumeral]
  cases hfraction with
  | digits hplaces => exact fractionPart_append hplaces hexponent stop negative _
  | none =>
    cases hexponent with
    | none =>
      rw [List.nil_append, List.nil_append, List.append_nil, afterWhole_nil stop,
        afterWhole_nil hnil]
      split
      · rfl
      · cases Scale.number negative ⟨kept.1, kept.2⟩ <;> rfl
    | digits hletter hsign h =>
      have hpart := exponentPart_append (.digits hletter hsign h) stop negative ⟨kept.1, kept.2⟩
      rcases hletter with rfl | rfl <;> exact hpart

theorem number_minusIf {cs : List Char} (h : ∀ c ∈ cs.head?, Numeral.isDigit c = true)
    (negative : Bool) : number (Numeral.minusIf negative ++ cs) = numberBody negative cs := by
  cases negative with
  | true => rfl
  | false =>
    simp only [Numeral.minusIf, Bool.false_eq_true, if_false, List.nil_append]
    unfold number
    split
    · exact absurd (h '-' rfl) (by decide)
    · rfl

/-- What a numeral is read as does not depend on what follows it. -/
theorem number_append {cs : List Char} (h : IsNumeral cs) (stop : EndsNumeral rest) :
    number (cs ++ rest) = withRest (number cs) rest := by
  have hnil : EndsNumeral [] := by simp [EndsNumeral]
  obtain @⟨negative, whole, fraction, exponent, hwhole, hfraction, hexponent⟩ := h
  have hhead (more : List Char) : ∀ c ∈ (whole ++ more).head?, Numeral.isDigit c = true := by
    obtain ⟨c, cs, rfl, hc⟩ := hwhole.1.exists_cons
    simpa using hc
  have hstop := hnil.stop hfraction hexponent
  rw [List.append_nil] at hstop
  rw [List.append_assoc, List.append_assoc, List.append_assoc, number_minusIf (hhead _),
    number_minusIf (hhead _), numberBody_append hwhole (stop.stop hfraction hexponent),
    numberBody_append hwhole hstop, afterWhole_append hfraction hexponent stop]

/-! ## Integers -/

theorem le_ofDigitChars (cs : List Char) (n : Nat) : n ≤ Nat.ofDigitChars 10 cs n := by
  induction cs generalizing n with
  | nil => exact Nat.le_refl n
  | cons c cs ih =>
    rw [Nat.ofDigitChars_cons]
    exact Nat.le_trans (by omega) (ih _)

/-- Digits are all kept as long as their number fits. -/
theorem keepWhole_eq {cs : List Char} {n : Nat} (h : Nat.ofDigitChars 10 cs n ≤ greatestKept) :
    keepWhole n cs = (Nat.ofDigitChars 10 cs n, 0) := by
  induction cs generalizing n with
  | nil => rfl
  | cons c cs ih =>
    rw [Nat.ofDigitChars_cons] at h ⊢
    have hle : ¬ greatestKept < 10 * n + Numeral.digitValue c :=
      Nat.not_lt.mpr (Nat.le_trans (le_ofDigitChars cs _) h)
    rw [keepWhole, if_neg hle]
    exact ih h

theorem isWhole_toDigits (n : Nat) : IsWhole (Nat.toDigits 10 n) := by
  refine ⟨⟨Nat.toDigits_ne_nil, fun c => Numeral.isDigit_of_mem_toDigits⟩, fun h => ?_⟩
  by_cases hzero : n = 0
  · subst hzero
    rfl
  · exact absurd h (Numeral.head?_toDigits_ne hzero)

/-- An integer of 64 bits is a numeral in plain decimal, and read as that integer. -/
theorem number_decimal (n : Int64) (stop : EndsNumeral rest) :
    number ((Numeral.decimal n.toInt).toList ++ rest) = .ok (.int n.toInt, rest) := by
  have hlow := Int64.le_toInt n
  have hhigh := Int64.toInt_lt n
  have hkeep : keepWhole 0 (Nat.toDigits 10 n.toInt.natAbs) = (n.toInt.natAbs, 0) := by
    have hvalue : Nat.ofDigitChars 10 (Nat.toDigits 10 n.toInt.natAbs) 0 = n.toInt.natAbs :=
      Numeral.value_toDigits _
    rw [keepWhole_eq, hvalue]
    rw [hvalue, greatestKept]
    omega
  have hwhole : wholeNumber (decide (n.toInt < 0)) n.toInt.natAbs = .int n.toInt := by
    rw [wholeNumber, if_neg, Numeral.negateIf_natAbs]
    rw [decide_eq_true_eq]
    omega
  have hdigits := isWhole_toDigits n.toInt.natAbs
  rw [Numeral.toList_decimal, List.append_assoc, number_minusIf, numberBody_append hdigits,
    hkeep, afterWhole_nil stop, if_pos rfl, hwhole]
  · exact fun c hc => (stop c hc).1
  · obtain ⟨c, cs, hcons, hc⟩ := hdigits.1.exists_cons
    simpa [hcons] using hc

/-! ## Numerals that are not used -/

theorem skipExponentPart_append {exponent : List Char} (h : IsExponent exponent)
    (stop : EndsNumeral rest) : skipExponentPart (exponent ++ rest) = .ok rest := by
  cases h with
  | none =>
    rw [List.nil_append]
    unfold skipExponentPart
    split
    · exact absurd rfl (stop 'e' rfl).2.2.1
    · exact absurd rfl (stop 'E' rfl).2.2.2
    · rfl
  | @digits letter sign digits hletter hsign h =>
    obtain ⟨-, hdrop⟩ := span_digits h fun c hc => (stop c hc).1
    obtain ⟨c, cs, rfl, hc⟩ := h.exists_cons
    have hskip : skipExponent (sign ++ (c :: cs ++ rest)) = .ok rest := by
      rw [List.cons_append] at hdrop ⊢
      rcases hsign with rfl | rfl | rfl
      · have hplus : c ≠ '+' := by
          rintro rfl
          cases hc
        have hminus : c ≠ '-' := by
          rintro rfl
          cases hc
        simp [skipExponent, hplus, hminus, hc, hdrop]
      · simp [skipExponent, hc, hdrop]
      · simp [skipExponent, hc, hdrop]
    rcases hletter with rfl | rfl <;> simpa [skipExponentPart] using hskip

/-- The end of a numeral is found behind its sign. -/
theorem skipNumber_append {whole fraction exponent : List Char} (hwhole : IsWhole whole)
    (hfraction : IsFraction fraction) (hexponent : IsExponent exponent)
    (stop : EndsNumeral rest) :
    skipNumber (whole ++ (fraction ++ (exponent ++ rest))) = .ok rest := by
  have hstop := stop.stop hfraction hexponent
  have hexponent' := skipExponentPart_append hexponent stop
  obtain ⟨-, hdrop⟩ := span_digits hwhole.1 hstop
  obtain ⟨c, tail, rfl, hc⟩ := hwhole.1.exists_cons
  have hzero := hwhole.not_leadingZero hstop
  rw [List.cons_append] at hdrop ⊢
  simp only [skipNumber, hc, hdrop, hzero, Bool.not_true, Bool.false_eq_true, if_false]
  cases hfraction with
  | @digits places hplaces =>
    obtain ⟨-, hdrop'⟩ := span_digits hplaces (stop.stop .none hexponent)
    obtain ⟨d, ds, rfl, hd⟩ := hplaces.exists_cons
    rw [List.nil_append, List.cons_append] at hdrop'
    simp [hd, hdrop', hexponent']
  | none =>
    have hpoint : ∀ tail, exponent ++ rest ≠ '.' :: tail := by
      intro tail heq
      cases hexponent with
      | none =>
        obtain rfl : rest = '.' :: tail := heq
        exact (stop '.' rfl).2.1 rfl
      | digits hletter =>
        obtain rfl := List.head_eq_of_cons_eq heq
        simp at hletter
    rw [List.nil_append]
    split
    · next heq => exact absurd heq (hpoint _)
    · exact hexponent'

end

end RowPolicy.Json
