import Mathlib.Tactic.GCongr
import RowPolicy.Proofs.Json.Numbers
import RowPolicy.Proofs.Number.Product

/-!
# Numerals within the range

A numeral that is not written with more than 307 places before the point, its exponent counted in,
is read as a number: `isNumeralInRange_of_places`. The kept digits and the weight of the last one
stay below the power of ten that the places allow, and so the number made of them is finite.
-/
namespace RowPolicy.Json

/-! ## Digits that are kept -/

namespace Scale

/-- What all numbers lie below that go on from the kept digits. -/
def top (s : Scale) : ℚ := (s.significand + 1) * 10 ^ s.exponent

theorem number_eq_ok (negative : Bool) {s : Scale} (h : s.top ≤ 10 ^ 307) :
    ∃ n, s.number negative = .ok n := by
  obtain ⟨m, e⟩ := s
  simp only [Scale.number]
  split
  · exact ⟨_, rfl⟩
  · next hexponent =>
    obtain ⟨k, rfl⟩ := Int.eq_ofNat_of_zero_le (not_lt.mp hexponent)
    split
    · exact ⟨_, rfl⟩
    · next hzero =>
      have hpos : 1 ≤ m := by
        rcases Nat.eq_zero_or_pos m with rfl | hpos
        · exact absurd Binary64.isZero_ofNat_zero hzero
        · exact hpos
      have hvalue : (m : ℚ) * 10 ^ k ≤ 10 ^ 307 := by
        refine le_trans ?_ h
        rw [Scale.top, zpow_natCast]
        gcongr
        exact le_add_of_nonneg_right zero_le_one
      have hk : k ≤ 307 := by
        have hone : (1 : ℚ) ≤ m := by exact_mod_cast hpos
        have hpow : (10 : ℚ) ^ k ≤ 10 ^ 307 :=
          (le_mul_of_one_le_left (by positivity) hone).trans hvalue
        exact (pow_le_pow_iff_right₀ (by norm_num)).mp hpow
      have hfinite : ((Binary64.ofNat m).times (powerOfTen k)).isInfinite = false :=
        Binary64.isInfinite_times_eq_false hpos hvalue Binary64.ten_pow_lt_size
      simp only [Int.toNat_natCast, hfinite, Bool.false_eq_true, if_false]
      rw [if_neg (by omega)]
      exact ⟨_, rfl⟩

end Scale

theorem digitValue_le {c : Char} (h : Numeral.isDigit c = true) : Numeral.digitValue c ≤ 9 := by
  simp only [Numeral.isDigit, Bool.and_eq_true, decide_eq_true_eq] at h
  have hle : c.toNat ≤ '9'.toNat := h.2
  exact Nat.sub_le_sub_right hle '0'.toNat

theorem keepWhole_le {cs : List Char} (h : ∀ c ∈ cs, Numeral.isDigit c = true) (n : Nat) :
    ((keepWhole n cs).1 + 1) * 10 ^ (keepWhole n cs).2 ≤ (n + 1) * 10 ^ cs.length := by
  induction cs generalizing n with
  | nil => exact Nat.le_refl _
  | cons c cs ih =>
    obtain ⟨hc, hcs⟩ := List.forall_mem_cons.mp h
    have hdigit := digitValue_le hc
    rw [keepWhole]
    split
    · exact Nat.le_refl _
    · calc _ ≤ (10 * n + Numeral.digitValue c + 1) * 10 ^ cs.length := ih hcs _
        _ ≤ ((n + 1) * 10) * 10 ^ cs.length := Nat.mul_le_mul_right _ (by omega)
        _ = (n + 1) * 10 ^ (cs.length + 1) := by ring

theorem keepPlaces_top_le {cs : List Char} (h : ∀ c ∈ cs, Numeral.isDigit c = true) (s : Scale) :
    (keepPlaces s cs).top ≤ s.top := by
  induction cs generalizing s with
  | nil => exact le_rfl
  | cons c cs ih =>
    obtain ⟨hc, hcs⟩ := List.forall_mem_cons.mp h
    have hdigit := digitValue_le hc
    rw [keepPlaces]
    split
    · exact le_rfl
    · refine (ih hcs _).trans ?_
      have hten : (10 : ℚ) ^ s.exponent = 10 * 10 ^ (s.exponent - 1) := by
        rw [← zpow_one_add₀ (by norm_num)]
        congr 1
        omega
      have hle : (10 * s.significand + Numeral.digitValue c) + 1 ≤ (s.significand + 1) * 10 := by
        omega
      have hle' : ((10 * s.significand + Numeral.digitValue c : Nat) + 1 : ℚ) ≤
          (s.significand + 1) * 10 := by
        exact_mod_cast hle
      rw [Scale.top, Scale.top, hten, ← mul_assoc]
      gcongr

/-! ## Numerals -/

/-- An exponent that has this value. -/
inductive WritesExponent : Int → List Char → Prop where
  | none : WritesExponent 0 []
  | digits {letter : Char} {sign digits : List Char} (hletter : letter = 'e' ∨ letter = 'E')
    (hsign : sign = [] ∨ sign = ['+'] ∨ sign = ['-']) (h : IsDigits digits) :
    WritesExponent (Numeral.negateIf (sign == ['-']) (Numeral.value digits))
      (letter :: (sign ++ digits))

theorem WritesExponent.isExponent {e : Int} {exponent : List Char} (h : WritesExponent e exponent) :
    IsExponent exponent := by
  cases h with
  | none => exact .none
  | digits hletter hsign h => exact .digits hletter hsign h

theorem exponentDigits_eq_ok (negative : Bool) {lowered : Bool} {s : Scale} {digits : List Char}
    (h : IsDigits digits)
    (htop : s.top * 10 ^ Numeral.negateIf lowered (Numeral.value digits) ≤ 10 ^ 307)
    (hle : Numeral.negateIf lowered (Numeral.value digits) ≤ 307) :
    ∃ n, exponentDigits negative lowered s digits = .ok (n, []) := by
  have hend : ∀ c ∈ ([] : List Char).head?, Numeral.isDigit c = false := by simp
  obtain ⟨htake, hdrop⟩ := span_digits h hend
  rw [List.append_nil] at htake hdrop
  obtain ⟨c, cs, rfl, hc⟩ := h.exists_cons
  simp only [exponentDigits, hc, htake, hdrop, Bool.not_true, Bool.false_eq_true, if_false]
  obtain ⟨value, hvalue⟩ : ∃ value, value = Numeral.value (c :: cs) := ⟨_, rfl⟩
  rw [← hvalue] at htop hle ⊢
  split
  · next hlarge =>
    have hlowered : lowered = true := by
      cases lowered with
      | true => rfl
      | false => exact absurd hle (by simp [Numeral.negateIf]; omega)
    exact ⟨_, if_pos (.inr hlowered)⟩
  · have hscale : (Scale.mk s.significand
        (if lowered then s.exponent - value else s.exponent + value)).top ≤ 10 ^ 307 := by
      refine le_of_eq_of_le ?_ htop
      have hten : (10 : ℚ) ≠ 0 := by norm_num
      rw [Scale.top, Scale.top, mul_assoc, ← zpow_add₀ hten]
      cases lowered <;> rfl
    obtain ⟨n, hn⟩ := Scale.number_eq_ok negative hscale
    simp only [hn]
    exact ⟨n, rfl⟩

theorem exponentPart_eq_ok (negative : Bool) {s : Scale} {e : Int} {exponent : List Char}
    (h : WritesExponent e exponent) (htop : s.top * 10 ^ e ≤ 10 ^ 307) (hle : e ≤ 307) :
    ∃ n, exponentPart negative s exponent = .ok (n, []) := by
  cases h with
  | none =>
    rw [zpow_zero, mul_one] at htop
    obtain ⟨n, hn⟩ := Scale.number_eq_ok negative htop
    exact ⟨n, by rw [exponentPart_nil (by simp [EndsNumeral]), hn]; rfl⟩
  | digits hletter hsign h =>
    rw [exponentPart_letter hletter hsign fun c hc => h.2 c (List.mem_of_mem_head? hc)]
    exact exponentDigits_eq_ok negative h htop hle

/-- The exponent may be as low as it likes, and there may be any number of places behind the
point. -/
theorem isNumeralInRange_of_places (negative : Bool) {whole fraction exponent : List Char}
    {e : Int} (hwhole : IsWhole whole) (hfraction : IsFraction fraction)
    (hexponent : WritesExponent e exponent) (h : whole.length + e ≤ 307) :
    IsNumeralInRange (Numeral.minusIf negative ++ (whole ++ (fraction ++ exponent))) := by
  have hnil : EndsNumeral [] := by simp [EndsNumeral]
  have hexponent' := hexponent.isExponent
  have hstop := hnil.stop hfraction hexponent'
  rw [List.append_nil] at hstop
  refine ⟨.mk negative hwhole hfraction hexponent', ?_⟩
  have hhead : ∀ c ∈ (whole ++ (fraction ++ exponent)).head?, Numeral.isDigit c = true := by
    obtain ⟨c, cs, rfl, hc⟩ := hwhole.1.exists_cons
    simpa using hc
  rw [number_minusIf hhead, numberBody_append hwhole hstop]
  obtain ⟨⟨m, dropped⟩, hkeep⟩ : ∃ kept, keepWhole 0 whole = kept := ⟨_, rfl⟩
  have htop : (Scale.mk m dropped).top ≤ 10 ^ (whole.length : Int) := by
    have hle := keepWhole_le hwhole.1.2 0
    rw [hkeep] at hle
    rw [Scale.top, zpow_natCast, zpow_natCast]
    exact_mod_cast (by simpa using hle : (m + 1) * 10 ^ dropped ≤ 10 ^ whole.length)
  have hbound {s : Scale} (hs : s.top ≤ 10 ^ (whole.length : Int)) : s.top * 10 ^ e ≤ 10 ^ 307 :=
    calc s.top * 10 ^ e ≤ 10 ^ (whole.length : Int) * 10 ^ e := by gcongr
      _ = 10 ^ (whole.length + e) := (zpow_add₀ (by norm_num) _ _).symm
      _ ≤ 10 ^ (307 : Int) := zpow_le_zpow_right₀ (by norm_num) h
      _ = 10 ^ 307 := zpow_ofNat 10 307
  have he : e ≤ 307 := by omega
  rw [hkeep]
  cases hfraction with
  | @digits places hplaces =>
    have hpart : afterWhole negative (m, dropped) ('.' :: places ++ exponent) =
        exponentPart negative (keepPlaces ⟨m, dropped⟩ places) exponent :=
      fractionPart_digits hplaces (by simpa using hnil.stop .none hexponent') negative _
    rw [hpart]
    have htop' := (keepPlaces_top_le hplaces.2 ⟨m, dropped⟩).trans htop
    exact exponentPart_eq_ok negative hexponent (hbound htop') he
  | none =>
    have hpart := exponentPart_eq_ok negative hexponent (hbound htop) he
    cases hexponent with
    | digits hletter hsign h => rcases hletter with rfl | rfl <;> exact hpart
    | none =>
      rw [exponentPart_nil hnil] at hpart
      rw [List.nil_append, afterWhole_nil hnil]
      split
      · exact ⟨_, rfl⟩
      · exact hpart

end RowPolicy.Json
