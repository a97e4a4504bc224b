import Mathlib.Algebra.Order.Field.Power
import Mathlib.Algebra.Order.Field.Rat
import Mathlib.Order.Monotone.Basic
import Mathlib.Tactic
import RowPolicy.Number.Binary64

/-!
# Reading a decimal as the nearest double

The magnitudes of doubles are the steps of a ladder that goes on beyond the finite ones. A double
stands for a rational if its magnitude is a nearest step, of two equally near ones the even one, and
infinity if that step is beyond. There is just one such double, and `Binary64.ofDecimal` finds it.
-/
namespace RowPolicy.Binary64

/-! ## The ladder of magnitudes -/

theorem two_pow_binade : 2 ^ 52 = binade ∧ 2 ^ 53 = 2 * binade := by norm_num [binade]

/-- A magnitude as a multiple of the least one. -/
def multiple (m : Nat) : Nat :=
  if m < binade then m else (binade + m % binade) * 2 ^ (m / binade - 1)

/-- The number that a magnitude encodes, as if no magnitude was too much. -/
def size (m : Nat) : ℚ := multiple m * 2 ^ leastExponent

/-- A finite double has the size of its significand and exponent. -/
theorem size_magnitude (x : Binary64) : size x.magnitude = x.significand * 2 ^ x.exponent := by
  unfold size multiple significand exponent
  split
  · rfl
  · next h =>
    have hpos : 1 ≤ x.magnitude / binade := (Nat.one_le_div_iff (by decide)).mpr (by omega)
    have hexponent : leastExponent + (x.magnitude / binade : Nat) - 1 =
        leastExponent + (x.magnitude / binade - 1 : Nat) := by omega
    rw [hexponent, zpow_add₀ two_ne_zero, zpow_natCast]
    push_cast
    ring

/-- Within a binade, its upper end included, the steps are evenly spaced. -/
theorem multiple_add {e r : Nat} (hlow : e = 0 ∨ binade ≤ r) (hhigh : r ≤ 2 * binade) :
    multiple (e * binade + r) = r * 2 ^ e := by
  have hbinade : 0 < binade := by decide
  rcases Nat.lt_or_ge r binade with hlt | hge
  · obtain rfl : e = 0 := hlow.resolve_right (by omega)
    simp [multiple, hlt]
  have hge' : ¬ e * binade + r < binade := by omega
  rw [multiple, if_neg hge']
  rcases Nat.lt_or_eq_of_le hhigh with hlt | rfl
  · obtain ⟨f, rfl⟩ := Nat.exists_eq_add_of_le hge
    have hsplit : e * binade + (binade + f) = f + (e + 1) * binade := by ring
    rw [hsplit, Nat.add_mul_mod_self_right, Nat.add_mul_div_right _ _ hbinade,
      Nat.mod_eq_of_lt (by omega), Nat.div_eq_of_lt (by omega)]
    simp
  · have hsplit : e * binade + 2 * binade = (e + 2) * binade := by ring
    rw [hsplit, Nat.mul_mod_left, Nat.mul_div_cancel _ hbinade, Nat.add_zero,
      show e + 2 - 1 = e + 1 from rfl, Nat.pow_succ]
    ring

theorem size_add {e r : Nat} (hlow : e = 0 ∨ binade ≤ r) (hhigh : r ≤ 2 * binade) :
    size (e * binade + r) = r * 2 ^ (leastExponent + e) := by
  rw [size, multiple_add hlow hhigh, zpow_add₀ two_ne_zero, zpow_natCast]
  push_cast
  ring

theorem multiple_strictMono : StrictMono multiple := by
  refine strictMono_nat_of_lt_succ fun m => ?_
  have hbinade : 0 < binade := by decide
  obtain ⟨e, r, rfl, hlow, hlt⟩ :
      ∃ e r, m = e * binade + r ∧ (e = 0 ∨ binade ≤ r) ∧ r < 2 * binade := by
    have hmod := Nat.mod_lt m hbinade
    have hdiv := Nat.div_add_mod' m binade
    rcases Nat.eq_zero_or_pos (m / binade) with hzero | hpos
    · rw [hzero] at hdiv
      exact ⟨0, m, by omega, .inl rfl, by omega⟩
    · obtain ⟨e, he⟩ := Nat.exists_eq_add_of_le' hpos
      rw [he, Nat.add_mul, Nat.one_mul] at hdiv
      exact ⟨e, binade + m % binade, by omega, .inr (by omega), by omega⟩
  rw [Nat.add_assoc, multiple_add hlow (by omega), multiple_add (by omega) (by omega)]
  exact Nat.mul_lt_mul_of_pos_right (Nat.lt_succ_self r) (by positivity)

theorem size_strictMono : StrictMono size := fun _ _ h =>
  mul_lt_mul_of_pos_right (Nat.cast_lt.mpr (multiple_strictMono h)) (by positivity)

/-! ## The nearest step -/

/-- No step is nearer to a rational, and of two that are equally near this is the even one. -/
structure IsNearest (q : ℚ) (m : Nat) : Prop where
  least : ∀ k, |size m - q| ≤ |size k - q|
  even : ∀ k, k ≠ m → |size m - q| = |size k - q| → m % 2 = 0

/-- A double of a sign is nearest to a rational. Infinity stands for all steps beyond the finite
ones. -/
def Rounds (negative : Bool) (q : ℚ) (x : Binary64) : Prop :=
  ∃ m, IsNearest q m ∧ x = ofMagnitude negative (min infinityMagnitude m)

/-- Between two nearest steps there would be a nearer one. -/
theorem IsNearest.not_lt {q : ℚ} {m k : Nat} (hm : IsNearest q m) (hk : IsNearest q k) :
    ¬ m < k := by
  intro hlt
  have heq : |size m - q| = |size k - q| := le_antisymm (hm.least k) (hk.least m)
  have hmeven := hm.even k hlt.ne' heq
  have hkeven := hk.even m hlt.ne heq.symm
  have hafter : size m < size (m + 1) := size_strictMono (by omega)
  have hbefore : size (m + 1) < size k := size_strictMono (by omega)
  have hsum : size k - q = -(size m - q) := by
    rcases abs_eq_abs.mp heq with h | h <;> linarith
  have hnearer : |size (m + 1) - q| < |size k - q| := by
    rw [abs_of_pos (a := size k - q) (by linarith), abs_lt]
    constructor <;> linarith
  exact absurd (hk.least (m + 1)) (not_le.mpr hnearer)

theorem IsNearest.unique {q : ℚ} {m k : Nat} (hm : IsNearest q m) (hk : IsNearest q k) : m = k :=
  Nat.le_antisymm (Nat.le_of_not_lt (hk.not_lt hm)) (Nat.le_of_not_lt (hm.not_lt hk))

theorem Rounds.unique {negative : Bool} {q : ℚ} {x y : Binary64} (hx : Rounds negative q x)
    (hy : Rounds negative q y) : x = y := by
  obtain ⟨m, hm, rfl⟩ := hx
  obtain ⟨k, hk, rfl⟩ := hy
  rw [hm.unique hk]

section Cell

variable {q : ℚ} {m : Nat}

theorem abs_size_sub_low (hlow : size m ≤ q) : |size m - q| = q - size m := by
  rw [abs_sub_comm, abs_of_nonneg (by linarith)]

theorem abs_size_sub_high (hhigh : q ≤ size m) : |size m - q| = size m - q :=
  abs_of_nonneg (by linarith)

/-- Between two steps, some of the two is nearer than any other. -/
theorem nearer_of_between (hlow : size m ≤ q) (hhigh : q ≤ size (m + 1)) {k : Nat} (hk : k ≠ m)
    (hk' : k ≠ m + 1) :
    |size m - q| < |size k - q| ∨ |size (m + 1) - q| < |size k - q| := by
  rcases Nat.lt_or_gt_of_ne hk with hbelow | habove
  · have hsize := size_strictMono hbelow
    rw [abs_size_sub_low hlow, abs_size_sub_low (by linarith)]
    exact .inl (by linarith)
  · have hsize : size (m + 1) < size k := size_strictMono (by omega)
    rw [abs_size_sub_high hhigh, abs_size_sub_high (m := k) (by linarith)]
    exact .inr (by linarith)

/-- Of the two steps around a rational one not farther than the other is nearest. -/
theorem isNearest_of_between (hlow : size m ≤ q) (hhigh : q ≤ size (m + 1)) {s t : Nat}
    (hst : s = m ∧ t = m + 1 ∨ s = m + 1 ∧ t = m) (hle : |size s - q| ≤ |size t - q|)
    (heven : |size s - q| = |size t - q| → s % 2 = 0) : IsNearest q s := by
  have hfar {k : Nat} (hs : k ≠ s) (ht : k ≠ t) : |size s - q| < |size k - q| := by
    rcases hst with ⟨rfl, rfl⟩ | ⟨rfl, rfl⟩
    · exact (nearer_of_between hlow hhigh hs ht).elim id hle.trans_lt
    · exact (nearer_of_between hlow hhigh ht hs).elim hle.trans_lt id
  refine ⟨fun k => ?_, fun k hs htie => ?_⟩
  · by_cases hs : k = s
    · rw [hs]
    by_cases ht : k = t
    · rw [ht]
      exact hle
    exact (hfar hs ht).le
  · by_cases ht : k = t
    · subst ht
      exact heven htie
    · exact absurd htie (hfar hs ht).ne

/-- A rational some parts above a step and the rest of them below the next one. -/
theorem isNearest_of_parts {r d : Nat} {part : ℚ} (hpart : 0 < part) (hr : r ≤ d)
    (hlow : q - size m = r * part) (hhigh : size (m + 1) - q = (d - r : Nat) * part) :
    (2 * r ≤ d → (2 * r = d → m % 2 = 0) → IsNearest q m) ∧
      (d ≤ 2 * r → (2 * r = d → (m + 1) % 2 = 0) → IsNearest q (m + 1)) := by
  have hle : size m ≤ q := sub_nonneg.mp (hlow ▸ by positivity)
  have hle' : q ≤ size (m + 1) := sub_nonneg.mp (hhigh ▸ by positivity)
  have hdist : |size m - q| = r * part := (abs_size_sub_low hle).trans hlow
  have hdist' : |size (m + 1) - q| = (d - r : Nat) * part := (abs_size_sub_high hle').trans hhigh
  have hmono {a b : Nat} (h : a ≤ b) : (a : ℚ) * part ≤ b * part :=
    mul_le_mul_of_nonneg_right (Nat.cast_le.mpr h) hpart.le
  have hinj {a b : Nat} (h : (a : ℚ) * part = b * part) : a = b :=
    Nat.cast_injective (mul_right_cancel₀ hpart.ne' h)
  constructor
  · intro hhalf heven
    refine isNearest_of_between hle hle' (.inl ⟨rfl, rfl⟩) ?_ ?_ <;> rw [hdist, hdist']
    · exact hmono (by omega)
    · intro htie
      have := hinj htie
      exact heven (by omega)
  · intro hhalf heven
    refine isNearest_of_between hle hle' (.inr ⟨rfl, rfl⟩) ?_ ?_ <;> rw [hdist, hdist']
    · exact hmono (by omega)
    · intro htie
      have := hinj htie
      exact heven (by omega)

end Cell

/-! ## Rounding a quotient -/

/-- A quotient within a binade rounds to a nearest step there. -/
theorem isNearest_roundQuotient {e n d : Nat} (hd : 0 < d) (hlow : e = 0 ∨ binade ≤ n / d)
    (hhigh : n / d < 2 * binade) :
    IsNearest (n / d * 2 ^ (leastExponent + e)) (e * binade + roundQuotient n d) := by
  have hd' : (d : ℚ) ≠ 0 := Nat.cast_ne_zero.mpr hd.ne'
  have hmod := Nat.mod_lt n hd
  have hsplit : (n : ℚ) = d * (n / d : Nat) + (n % d : Nat) := by
    exact_mod_cast (Nat.div_add_mod n d).symm
  have hsub : ((d - n % d : Nat) : ℚ) = d - (n % d : Nat) := Nat.cast_sub hmod.le
  obtain ⟨part, hpart⟩ : ∃ p : ℚ, p = 2 ^ (leastExponent + e) / d := ⟨_, rfl⟩
  have hpos : 0 < part := by
    rw [hpart]
    positivity
  have hunit : (2 : ℚ) ^ (leastExponent + e) = d * part := by
    rw [hpart, mul_div_cancel₀ _ hd']
  have hfloor : size (e * binade + n / d) = (n / d : Nat) * (d * part) := by
    rw [size_add hlow hhigh.le, hunit]
  have hceil : size (e * binade + n / d + 1) = ((n / d : Nat) + 1) * (d * part) := by
    rw [Nat.add_assoc, size_add (by omega) (by omega), hunit]
    push_cast
    rfl
  have hq : (n : ℚ) / d * 2 ^ (leastExponent + e) = n * part := by
    rw [hpart]
    ring
  obtain ⟨hdown, hup⟩ := isNearest_of_parts (q := n * part) (m := e * binade + n / d) hpos hmod.le
    (by rw [hfloor, hsplit]; ring) (by rw [hceil, hsub, hsplit]; ring)
  have heven : e * binade % 2 = 0 := by
    rw [Nat.mul_mod]
    simp [binade]
  rw [hq, roundQuotient]
  split
  · rw [← Nat.add_assoc]
    exact hup (by omega) (by omega)
  · exact hdown (by omega) (by omega)

/-- A fraction keeps its value, counted in powers of two. -/
theorem scaled_eq (num den : Nat) (e : Int) :
    ((scaled num den e).1 : ℚ) / (scaled num den e).2 * 2 ^ e = num / den := by
  unfold scaled
  split
  · next h =>
    obtain ⟨k, rfl⟩ := Int.eq_ofNat_of_zero_le h
    rw [Int.toNat_natCast, Nat.shiftLeft_eq, zpow_natCast]
    push_cast
    field_simp
  · next h =>
    obtain ⟨k, rfl⟩ : ∃ k : Nat, e = -k := ⟨(-e).toNat, by omega⟩
    rw [Int.neg_neg, Int.toNat_natCast, Nat.shiftLeft_eq, zpow_neg, zpow_natCast]
    push_cast
    field_simp

theorem scaled_pos (num : Nat) {den : Nat} (h : 0 < den) (e : Int) : 0 < (scaled num den e).2 := by
  unfold scaled
  split
  · rw [Nat.shiftLeft_eq]
    positivity
  · exact h

/-- The whole part of a scaled fraction is below a power of two where the fraction itself is. -/
theorem scaled_div_lt_iff (num : Nat) {den : Nat} (h : 0 < den) (e : Int) (k : Nat) :
    (scaled num den e).1 / (scaled num den e).2 < 2 ^ k ↔ (num : ℚ) / den < 2 ^ (k + e) := by
  have hpos := scaled_pos num h e
  have hpos' : (0 : ℚ) < (scaled num den e).2 := Nat.cast_pos.mpr hpos
  have hunit : (0 : ℚ) < 2 ^ e := by positivity
  rw [Nat.div_lt_iff_lt_mul hpos, ← scaled_eq num den e, zpow_add₀ two_ne_zero, zpow_natCast,
    mul_lt_mul_iff_left₀ hunit, div_lt_iff₀ hpos']
  exact_mod_cast Iff.rfl

/-- How many bits the numerator is ahead gives the fraction up to a factor of two. -/
theorem div_log2_bounds {num den : Nat} (hn : num ≠ 0) (hd : den ≠ 0) :
    (2 : ℚ) ^ ((num.log2 : Int) - den.log2 - 1) ≤ num / den ∧
      (num : ℚ) / den < 2 ^ ((num.log2 : Int) - den.log2 + 1) := by
  have hpos : (0 : ℚ) < den := Nat.cast_pos.mpr (Nat.pos_of_ne_zero hd)
  have hbits {n : Nat} (h : n ≠ 0) :
      (2 : ℚ) ^ (n.log2 : Int) ≤ n ∧ (n : ℚ) < 2 ^ ((n.log2 : Int) + 1) := by
    have hlt : n < 2 ^ (n.log2 + 1) := Nat.lt_log2_self
    exact ⟨by exact_mod_cast Nat.log2_self_le h, by exact_mod_cast hlt⟩
  have hmul (a b : Int) : (2 : ℚ) ^ (a + b) = 2 ^ a * 2 ^ b := zpow_add₀ two_ne_zero a b
  obtain ⟨hnlow, hnhigh⟩ := hbits hn
  obtain ⟨hdlow, hdhigh⟩ := hbits hd
  constructor
  · rw [le_div_iff₀ hpos]
    calc (2 : ℚ) ^ ((num.log2 : Int) - den.log2 - 1) * den
        ≤ 2 ^ ((num.log2 : Int) - den.log2 - 1) * 2 ^ ((den.log2 : Int) + 1) := by gcongr
      _ = 2 ^ (num.log2 : Int) := by rw [← hmul]; congr 1; ring
      _ ≤ num := hnlow
  · rw [div_lt_iff₀ hpos]
    calc (num : ℚ) < 2 ^ ((num.log2 : Int) + 1) := hnhigh
      _ = 2 ^ ((num.log2 : Int) - den.log2 + 1) * 2 ^ (den.log2 : Int) := by
        rw [← hmul]; congr 1; ring
      _ ≤ 2 ^ ((num.log2 : Int) - den.log2 + 1) * den := by gcongr

/-- The fitting exponent gives the whole part of the quotient 53 bits, or fewer if it is least. -/
theorem fittingExponent_spec {num den : Nat} (hn : num ≠ 0) (hd : den ≠ 0) :
    leastExponent ≤ fittingExponent num den ∧
      (num : ℚ) / den < 2 ^ (53 + fittingExponent num den) ∧
      (fittingExponent num den = leastExponent ∨
        (2 : ℚ) ^ (52 + fittingExponent num den) ≤ num / den) := by
  obtain ⟨hlower, hupper⟩ := div_log2_bounds hn hd
  obtain ⟨low, hlow⟩ : ∃ low, low = max leastExponent ((num.log2 : Int) - den.log2 - 53) :=
    ⟨_, rfl⟩
  have hiff := scaled_div_lt_iff num (Nat.pos_of_ne_zero hd) low 53
  have hfit : fittingExponent num den =
      if (scaled num den low).1 / (scaled num den low).2 < 2 ^ 53 then low else low + 1 := by
    rw [hlow]
    rfl
  rw [hfit]
  split
  · next hlt =>
    refine ⟨by omega, hiff.mp hlt, ?_⟩
    rcases Int.le_total ((num.log2 : Int) - den.log2 - 53) leastExponent with hle | hle
    · exact .inl (by omega)
    · refine .inr ?_
      rwa [show 52 + low = (num.log2 : Int) - den.log2 - 1 by omega]
  · next hge =>
    have hlarge : (2 : ℚ) ^ (53 + low) ≤ num / den := not_lt.mp (mt hiff.mpr hge)
    have hexponent : 53 + low < (num.log2 : Int) - den.log2 + 1 :=
      (zpow_lt_zpow_iff_right₀ one_lt_two).mp (hlarge.trans_lt hupper)
    refine ⟨by omega, ?_, .inr ?_⟩
    · rwa [show 53 + (low + 1) = (num.log2 : Int) - den.log2 + 1 by omega]
    · rwa [show 52 + (low + 1) = 53 + low by ring]

/-- The magnitude found for a fraction is a nearest step, or infinity if that is beyond. -/
theorem exists_isNearest (num : Nat) {den : Nat} (hd : den ≠ 0) :
    ∃ m, IsNearest (num / den) m ∧ nearestMagnitude num den = min infinityMagnitude m := by
  have hpos := Nat.pos_of_ne_zero hd
  by_cases hn : num = 0
  · subst hn
    have hzero := isNearest_roundQuotient (n := 0) (d := 1) (e := 0) (by decide) (.inl rfl)
      (by decide)
    exact ⟨0, by simpa [roundQuotient] using hzero, by simp [nearestMagnitude]⟩
  obtain ⟨hleast, hupper, hlower⟩ := fittingExponent_spec hn hd
  obtain ⟨k, hk⟩ := Int.le.dest hleast
  have hhigh : (scaled num den (fittingExponent num den)).1 /
      (scaled num den (fittingExponent num den)).2 < 2 * binade := by
    rw [← two_pow_binade.2]
    exact (scaled_div_lt_iff num hpos _ 53).mpr hupper
  have hlow : k = 0 ∨ binade ≤ (scaled num den (fittingExponent num den)).1 /
      (scaled num den (fittingExponent num den)).2 := by
    refine hlower.imp (fun h => by omega) fun h => Nat.le_of_not_lt ?_
    rw [← two_pow_binade.1]
    exact mt (scaled_div_lt_iff num hpos _ 52).mp (not_lt.mpr h)
  have hnearest := isNearest_roundQuotient (scaled_pos num hpos _) hlow hhigh
  rw [hk, scaled_eq] at hnearest
  have hexponent : (fittingExponent num den - leastExponent).toNat = k := by omega
  refine ⟨_, hnearest, ?_⟩
  rw [nearestMagnitude, if_neg hn]
  simp only [hexponent]

theorem rounds_ofQuotient (negative : Bool) (num : Nat) {den : Nat} (hd : den ≠ 0) :
    Rounds negative (num / den) (ofQuotient negative num den) := by
  obtain ⟨m, hm, heq⟩ := exists_isNearest num hd
  exact ⟨m, hm, by rw [ofQuotient, heq]⟩

/-! ## Decimals -/

theorem size_zero : size 0 = 0 := by simp [size, multiple, binade]

theorem size_one : size 1 = 2 ^ leastExponent := by simp [size, multiple, binade]

theorem size_infinityMagnitude : size infinityMagnitude = 2 ^ 1024 := by
  have hsplit : infinityMagnitude = 2046 * binade + binade := by
    norm_num [infinityMagnitude, binade]
  have hbinade : (binade : ℚ) = 2 ^ (52 : Int) := by norm_num [binade]
  rw [hsplit, size_add (.inr le_rfl) (by omega), hbinade, ← zpow_add₀ two_ne_zero]
  norm_num [leastExponent]

/-- What is below half the least magnitude rounds to zero. -/
theorem rounds_zero (negative : Bool) {q : ℚ} (hq : 0 ≤ q) (hlt : 2 * q < 2 ^ leastExponent) :
    Rounds negative q (ofMagnitude negative 0) := by
  have hlow : size 0 ≤ q := by rwa [size_zero]
  have hhigh : q ≤ size (0 + 1) := by
    rw [Nat.zero_add, size_one]
    linarith
  have hnearer : |size 0 - q| < |size (0 + 1) - q| := by
    rw [abs_size_sub_low hlow, abs_size_sub_high hhigh, Nat.zero_add, size_zero, size_one]
    linarith
  refine ⟨0, isNearest_of_between hlow hhigh (.inl ⟨rfl, rfl⟩) hnearer.le fun h => ?_, rfl⟩
  exact absurd h hnearer.ne

/-- What is above all finite magnitudes rounds to infinity. -/
theorem rounds_infinity (negative : Bool) {num den : Nat} (hd : den ≠ 0)
    (hge : size infinityMagnitude ≤ num / den) :
    Rounds negative (num / den) (infinity negative) := by
  obtain ⟨m, hm, -⟩ := exists_isNearest num hd
  have hle : infinityMagnitude ≤ m := by
    by_contra hlt
    have hsize : size m < size infinityMagnitude := size_strictMono (by omega)
    have hleast := hm.least infinityMagnitude
    rw [abs_size_sub_low (by linarith), abs_size_sub_low hge] at hleast
    linarith
  exact ⟨m, hm, by rw [infinity, Nat.min_eq_left hle]⟩

theorem cast_tenTo (n : Nat) : (tenTo n : ℚ) = 10 ^ (n : Int) := by
  rw [zpow_natCast]
  exact Nat.cast_pow 10 n

/-- Three bits are less than a decimal place. -/
theorem two_pow_le_ten_pow {a b : Nat} (h : a ≤ 3 * b) : (2 : ℚ) ^ a ≤ 10 ^ b :=
  calc (2 : ℚ) ^ a ≤ 2 ^ (3 * b) := pow_le_pow_right₀ one_le_two h
    _ = 8 ^ b := by rw [pow_mul]; norm_num
    _ ≤ 10 ^ b := by gcongr; norm_num

/-- A decimal that is too short for its exponent is below half the least magnitude. -/
theorem two_mul_decimal_lt {digits : Nat} {exponent : Int}
    (h : digits = 0 ∨ (digits.log2 / 3 : Nat) + exponent < -400) :
    2 * (digits * 10 ^ exponent : ℚ) < 2 ^ leastExponent := by
  rcases h with rfl | h
  · simp only [Nat.cast_zero, zero_mul, mul_zero]
    positivity
  have hten : (10 : ℚ) ≠ 0 := by norm_num
  have hdigits : (digits : ℚ) < 10 ^ (digits.log2 / 3 + 1) :=
    calc (digits : ℚ) < 2 ^ (digits.log2 + 1) := by exact_mod_cast Nat.lt_log2_self
      _ ≤ 10 ^ (digits.log2 / 3 + 1) := two_pow_le_ten_pow (by omega)
  have hinv : ((10 : ℚ) ^ 400)⁻¹ ≤ (2 ^ 1075)⁻¹ :=
    inv_anti₀ (by positivity) (two_pow_le_ten_pow (by omega))
  calc 2 * (digits * 10 ^ exponent : ℚ)
      < 2 * (10 ^ (digits.log2 / 3 + 1) * 10 ^ exponent) := by gcongr
    _ = 2 * 10 ^ ((digits.log2 / 3 + 1 : Nat) + exponent) := by rw [zpow_add₀ hten, zpow_natCast]
    _ ≤ 2 * 10 ^ (-(400 : Nat) : Int) := by
      gcongr
      · norm_num
      · omega
    _ ≤ 2 * 2 ^ (-(1075 : Nat) : Int) := by
      rw [zpow_neg, zpow_natCast, zpow_neg, zpow_natCast]
      gcongr
    _ = 2 ^ leastExponent := by
      rw [← zpow_one_add₀ two_ne_zero]
      rfl

/-- A decimal is read as the double nearest to it. -/
theorem rounds_ofDecimal (negative : Bool) (digits : Nat) (exponent : Int) :
    Rounds negative (digits * 10 ^ exponent) (ofDecimal negative digits exponent) := by
  have hplaces (k : Nat) :
      (digits : ℚ) * 10 ^ (k : Int) = (digits * tenTo k : Nat) / (1 : Nat) := by
    rw [Nat.cast_mul, cast_tenTo, Nat.cast_one, div_one]
  rw [ofDecimal]
  split
  · next htiny => exact rounds_zero negative (by positivity) (two_mul_decimal_lt htiny)
  next htiny =>
  split
  · next hhuge =>
    obtain ⟨k, rfl⟩ := Int.eq_ofNat_of_zero_le (show 0 ≤ exponent by omega)
    have hdigits : (1 : ℚ) ≤ digits := by
      have : 1 ≤ digits := Nat.one_le_iff_ne_zero.mpr fun h => htiny (.inl h)
      exact_mod_cast this
    have hge : (2 : ℚ) ^ 1024 ≤ digits * 10 ^ (k : Int) := by
      rw [zpow_natCast]
      exact (two_pow_le_ten_pow (by omega)).trans (le_mul_of_one_le_left (by positivity) hdigits)
    rw [hplaces] at hge ⊢
    exact rounds_infinity negative one_ne_zero (size_infinityMagnitude.trans_le hge)
  · split
    · next hpos =>
      obtain ⟨k, rfl⟩ := Int.eq_ofNat_of_zero_le hpos
      rw [hplaces]
      exact rounds_ofQuotient negative _ one_ne_zero
    · next hneg =>
      obtain ⟨k, rfl⟩ : ∃ k : Nat, exponent = -k := ⟨(-exponent).toNat, by omega⟩
      have hten : tenTo k ≠ 0 := (Nat.pow_pos (by decide)).ne'
      rw [zpow_neg, ← cast_tenTo, ← div_eq_mul_inv, Int.neg_neg, Int.toNat_natCast]
      exact rounds_ofQuotient negative digits hten

end RowPolicy.Binary64
