import RowPolicy.Proofs.Number.Rounding

/-!
# Products that stay finite

A double is at most twice the number that it is rounded from, so a product of two rounded factors is
at most eight times as large as the exact one. Below an eighth of infinity it is therefore finite.
-/
namespace RowPolicy.Binary64

theorem magnitude_ofMagnitude (negative : Bool) {m : Nat} (h : m < signWeight) :
    (ofMagnitude negative m).magnitude = m := by
  cases negative <;> simp [ofMagnitude, magnitude, signWeight] at * <;> omega

/-- Rounding makes a number at most twice as large, and infinite only if it is very large. -/
theorem Rounds.size_le {negative : Bool} {q : ℚ} {x : Binary64} (h : Rounds negative q x)
    (hq : 0 ≤ q) (hlt : 2 * q < size infinityMagnitude) :
    size x.magnitude ≤ 2 * q ∧ x.magnitude < infinityMagnitude := by
  obtain ⟨m, hm, rfl⟩ := h
  have hsize : size m ≤ 2 * q := by
    have hzero := hm.least 0
    rw [size_zero, zero_sub, abs_neg, abs_of_nonneg hq] at hzero
    linarith [le_abs_self (size m - q)]
  have hm' : m < infinityMagnitude := by
    rw [← size_strictMono.lt_iff_lt]
    exact hsize.trans_lt hlt
  have hsign : infinityMagnitude < signWeight := by decide
  rw [Nat.min_eq_right hm'.le, magnitude_ofMagnitude _ (hm'.trans hsign)]
  exact ⟨hsize, hm'⟩

theorem rounds_ofNat (n : Nat) : Rounds false n (ofNat n) := by
  have h := rounds_ofQuotient false n one_ne_zero
  rwa [Nat.cast_one, div_one] at h

theorem rounds_ofNat_tenTo (k : Nat) : Rounds false (10 ^ k) (ofNat (tenTo k)) := by
  have h := rounds_ofNat (tenTo k)
  rwa [cast_tenTo, zpow_natCast] at h

theorem isZero_ofNat_zero : (ofNat 0).isZero = true := by decide

theorem fraction_eq (x : Binary64) :
    (x.fraction.1 / x.fraction.2 : ℚ) = size x.magnitude ∧ x.fraction.2 ≠ 0 := by
  rw [size_magnitude, fraction]
  split
  · next h =>
    obtain ⟨k, hk⟩ := Int.eq_ofNat_of_zero_le h
    simp [hk, Nat.shiftLeft_eq]
  · next h =>
    obtain ⟨k, hk⟩ := Int.eq_ofNat_of_zero_le (show 0 ≤ -x.exponent by omega)
    have hneg : x.exponent = -k := by omega
    simp [hneg, Nat.shiftLeft_eq, div_eq_mul_inv]

theorem rounds_times (x y : Binary64) :
    Rounds false (size x.magnitude * size y.magnitude) (x.times y) := by
  obtain ⟨hx, hx'⟩ := fraction_eq x
  obtain ⟨hy, hy'⟩ := fraction_eq y
  have h := rounds_ofQuotient false (x.fraction.1 * y.fraction.1) (mul_ne_zero hx' hy')
  rw [Nat.cast_mul, Nat.cast_mul, mul_div_mul_comm, hx, hy] at h
  exact h

/-- A power of ten times a natural number is far from infinity if the product is. -/
theorem isInfinite_times_eq_false {m k : Nat} {q : ℚ} (hm : 1 ≤ m) (hle : (m : ℚ) * 10 ^ k ≤ q)
    (hlt : 8 * q < size infinityMagnitude) :
    ((ofNat m).times (ofNat (tenTo k))).isInfinite = false := by
  have hm' : (1 : ℚ) ≤ m := by exact_mod_cast hm
  have hten : (1 : ℚ) ≤ 10 ^ k := one_le_pow₀ (by norm_num)
  have hleft : (m : ℚ) ≤ m * 10 ^ k := le_mul_of_one_le_right (by positivity) hten
  have hright : (10 : ℚ) ^ k ≤ m * 10 ^ k := le_mul_of_one_le_left (by positivity) hm'
  obtain ⟨hx, -⟩ := (rounds_ofNat m).size_le (by positivity) (by linarith)
  obtain ⟨hy, -⟩ := (rounds_ofNat_tenTo k).size_le (by positivity) (by linarith)
  have hpos (n : Nat) : 0 ≤ size n := by
    rw [← size_zero]
    exact size_strictMono.monotone (Nat.zero_le n)
  have hproduct : size (ofNat m).magnitude * size (ofNat (tenTo k)).magnitude ≤
      4 * (m * 10 ^ k) := by
    calc _ ≤ (2 * m : ℚ) * (2 * 10 ^ k) := mul_le_mul hx hy (hpos _) (by positivity)
      _ = 4 * (m * 10 ^ k) := by ring
  obtain ⟨-, hlt⟩ := (rounds_times (ofNat m) (ofNat (tenTo k))).size_le
    (mul_nonneg (hpos _) (hpos _)) (by linarith)
  exact beq_false_of_ne hlt.ne

theorem ten_pow_lt_size : 8 * 10 ^ 307 < size infinityMagnitude := by
  have h : 8 * 10 ^ 307 < 2 ^ 1024 := by decide +kernel
  rw [size_infinityMagnitude]
  exact_mod_cast h

end RowPolicy.Binary64
