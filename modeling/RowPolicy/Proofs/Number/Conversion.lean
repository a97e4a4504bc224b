import RowPolicy.Proofs.Number.Product

/-!
# Integers as doubles

An integer meets a double as the double nearest to it. Of two integers the greater one never becomes
the lesser double, but two may become the same. Up to `2 ^ 53` every integer is a double itself, so
only integers from there on are mistaken for others.
-/
namespace RowPolicy.Binary64

/-! ## The nearest step -/

/-- Of two numbers the greater one is not the farther one only from the upper half between them. -/
theorem add_le_two_mul {a b q : ℚ} (hlt : a < b) (h : |b - q| ≤ |a - q|) : a + b ≤ 2 * q := by
  by_contra! hq
  have hnearer : |a - q| < b - q := abs_lt.mpr ⟨by linarith, by linarith⟩
  linarith [le_abs_self (b - q)]

theorem two_mul_le_add {a b q : ℚ} (hlt : a < b) (h : |a - q| ≤ |b - q|) : 2 * q ≤ a + b := by
  by_contra! hq
  have hnearer : |b - q| < q - a := abs_lt.mpr ⟨by linarith, by linarith⟩
  linarith [neg_le_abs (a - q)]

/-- Nearest steps are in the order of the numbers that they are nearest to. -/
theorem IsNearest.mono {q r : ℚ} {m k : Nat} (hm : IsNearest q m) (hk : IsNearest r k)
    (hle : q ≤ r) : m ≤ k := by
  by_contra! hlt
  have hsize : size k < size m := size_strictMono hlt
  have hupper := add_le_two_mul hsize (hm.least k)
  have hlower := two_mul_le_add hsize (hk.least m)
  -- Both numbers are then halfway between the two steps.
  obtain rfl : q = r := by linarith
  exact hlt.ne' (hm.unique hk)

/-- A step is nearest to its own size. -/
theorem isNearest_size (m : Nat) : IsNearest (size m) m := by
  refine ⟨fun k => by simp, fun k hne htie => ?_⟩
  rw [sub_self, abs_zero, eq_comm, abs_eq_zero, sub_eq_zero] at htie
  exact absurd (size_strictMono.injective htie) hne

/-! ## Natural numbers -/

theorem nearestMagnitude_mono {n k : Nat} (h : n ≤ k) :
    nearestMagnitude n 1 ≤ nearestMagnitude k 1 := by
  obtain ⟨m, hm, hn⟩ := exists_isNearest n one_ne_zero
  obtain ⟨l, hl, hk⟩ := exists_isNearest k one_ne_zero
  rw [Nat.cast_one, div_one] at hm hl
  have hle : m ≤ l := hm.mono hl (by exact_mod_cast h)
  rw [hn, hk]
  omega

/-- A natural number up to `2 ^ 53` is the size of a step. -/
theorem exists_size_eq {n : Nat} (h : n ≤ 2 * binade) : ∃ m, size m = n := by
  rcases Nat.eq_zero_or_pos n with rfl | hpos
  · exact ⟨0, by simpa using size_zero⟩
  rcases h.eq_or_lt with rfl | hlt
  · refine ⟨1074 * binade + 2 * binade, ?_⟩
    rw [size_add (.inr (by omega)) le_rfl]
    norm_num [leastExponent]
  -- The bits are moved to the top of the significand.
  have hbits : n.log2 ≤ 52 := by
    have : n.log2 < 53 := (Nat.log2_lt hpos.ne').mpr (by rwa [two_pow_binade.2])
    omega
  have hlow : 2 ^ 52 ≤ n * 2 ^ (52 - n.log2) :=
    calc 2 ^ 52 = 2 ^ n.log2 * 2 ^ (52 - n.log2) := by rw [← Nat.pow_add]; congr 1; omega
      _ ≤ n * 2 ^ (52 - n.log2) := Nat.mul_le_mul_right _ (Nat.log2_self_le hpos.ne')
  have hhigh : n * 2 ^ (52 - n.log2) ≤ 2 ^ 53 :=
    calc n * 2 ^ (52 - n.log2) ≤ 2 ^ (n.log2 + 1) * 2 ^ (52 - n.log2) :=
          Nat.mul_le_mul_right _ Nat.lt_log2_self.le
      _ = 2 ^ 53 := by rw [← Nat.pow_add]; congr 1; omega
  rw [two_pow_binade.1] at hlow
  rw [two_pow_binade.2] at hhigh
  refine ⟨(1022 + n.log2) * binade + n * 2 ^ (52 - n.log2), ?_⟩
  have hexponent : leastExponent + (1022 + n.log2 : Nat) = -(52 - n.log2 : Nat) := by
    simp only [leastExponent]
    omega
  rw [size_add (.inr hlow) hhigh, hexponent, zpow_neg, zpow_natCast]
  push_cast
  field_simp

theorem size_nearestMagnitude {n : Nat} (h : n ≤ 2 * binade) : size (nearestMagnitude n 1) = n := by
  obtain ⟨m, hm, hn⟩ := exists_isNearest n one_ne_zero
  obtain ⟨k, hk⟩ := exists_size_eq h
  rw [Nat.cast_one, div_one, ← hk] at hm
  obtain rfl : m = k := hm.unique (isNearest_size k)
  have hfinite : m ≤ infinityMagnitude := by
    rw [← size_strictMono.le_iff_le, hk, size_infinityMagnitude]
    calc (n : ℚ) ≤ (2 ^ 53 : Nat) := by rw [two_pow_binade.2]; exact_mod_cast h
      _ ≤ 2 ^ 1024 := by
        rw [Nat.cast_pow, Nat.cast_ofNat]
        exact pow_le_pow_right₀ one_le_two (by decide)
  rw [hn, Nat.min_eq_right hfinite, hk]

/-- What becomes the same as a number below `2 ^ 53` is that number. -/
theorem eq_of_nearestMagnitude_eq {n k : Nat} (hlt : n < 2 * binade)
    (h : nearestMagnitude n 1 = nearestMagnitude k 1) : n = k := by
  have hn := size_nearestMagnitude hlt.le
  rcases Nat.le_total k (2 * binade) with hle | hge
  · rw [h, size_nearestMagnitude hle] at hn
    exact_mod_cast hn.symm
  · -- The other number would be at least as large as `2 ^ 53`, and its step as well.
    have hstep : size (nearestMagnitude (2 * binade) 1) ≤ size (nearestMagnitude k 1) :=
      size_strictMono.monotone (nearestMagnitude_mono hge)
    rw [size_nearestMagnitude le_rfl, ← h, hn] at hstep
    have : 2 * binade ≤ n := by exact_mod_cast hstep
    omega

/-! ## Integers -/

theorem nearestMagnitude_le (n : Nat) : nearestMagnitude n 1 ≤ infinityMagnitude := by
  obtain ⟨m, -, h⟩ := exists_isNearest n one_ne_zero
  rw [h]
  exact Nat.min_le_left _ _

theorem nearestMagnitude_lt_signWeight (n : Nat) : nearestMagnitude n 1 < signWeight :=
  (nearestMagnitude_le n).trans_lt (by decide)

theorem place_ofMagnitude (negative : Bool) {m : Nat} (h : m < signWeight) :
    (ofMagnitude negative m).place = if negative then -(m : Int) else m := by
  have hmagnitude := magnitude_ofMagnitude negative h
  rw [place, hmagnitude]
  cases negative <;> simp [isNegative, ofMagnitude, signWeight] at h ⊢ <;> omega

theorem place_ofInt (n : Int) :
    (ofInt n).place =
      if n < 0 then -(nearestMagnitude n.natAbs 1 : Int) else nearestMagnitude n.natAbs 1 := by
  rw [ofInt, ofQuotient, place_ofMagnitude _ (nearestMagnitude_lt_signWeight _)]
  simp only [decide_eq_true_eq]

theorem isNaN_ofInt (n : Int) : (ofInt n).isNaN = false := by
  rw [isNaN, ofInt, ofQuotient, magnitude_ofMagnitude _ (nearestMagnitude_lt_signWeight _)]
  simpa using nearestMagnitude_le n.natAbs

/-- The greater integer does not become the lesser double. -/
theorem place_ofInt_mono {m n : Int} (h : m ≤ n) : (ofInt m).place ≤ (ofInt n).place := by
  rw [place_ofInt, place_ofInt]
  split <;> split
  · have := nearestMagnitude_mono (show n.natAbs ≤ m.natAbs by omega)
    omega
  · omega
  · omega
  · have := nearestMagnitude_mono (show m.natAbs ≤ n.natAbs by omega)
    omega

theorem natAbs_place_ofInt (n : Int) : (ofInt n).place.natAbs = nearestMagnitude n.natAbs 1 := by
  rw [place_ofInt]
  split <;> omega

/-- What becomes the same double as an integer of fewer than 54 bits is that integer. -/
theorem eq_of_place_ofInt_eq {m n : Int} (hlt : m.natAbs < 2 ^ 53)
    (h : (ofInt m).place = (ofInt n).place) : m = n := by
  rw [two_pow_binade.2] at hlt
  have hstep := congrArg Int.natAbs h
  rw [natAbs_place_ofInt, natAbs_place_ofInt] at hstep
  have habs := eq_of_nearestMagnitude_eq hlt hstep
  by_contra hne
  -- Of two opposite numbers the places are opposite, so that here both would be zero.
  have hzero : nearestMagnitude 0 1 = nearestMagnitude m.natAbs 1 := by
    rw [place_ofInt, place_ofInt, habs] at h
    rw [habs, nearestMagnitude, if_pos rfl]
    split at h <;> split at h <;> omega
  have := eq_of_nearestMagnitude_eq (by decide) hzero
  omega

end RowPolicy.Binary64
