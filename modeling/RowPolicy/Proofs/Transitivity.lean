import RowPolicy.Proofs.Order

/-!
# Transitivity of the order

What is at most equal to a value that is at most equal to another is at most equal to that one, be
they integers and doubles or days and times. There is one exception: of two different integers that
become the same double both are equal to it, and still not to each other. Such integers have more
than 53 bits.

The main statement is `Value.compareBy_trans`.
-/
namespace RowPolicy

theorem Binary64.compare?_eq_some_iff {x y : Binary64} {o : Ordering} :
    x.compare? y = some o ↔ x.isNaN = false ∧ y.isNaN = false ∧ compare x.place y.place = o := by
  cases hx : x.isNaN <;> cases hy : y.isNaN <;> simp [compare?, hx, hy]

namespace Position

/-- On one scale and not behind. -/
instance : LE Position := ⟨fun p q => ∃ o, p.compare? q = some o ∧ o.isLE = true⟩

theorem le_trans {p q r : Position} (hpq : p ≤ q) (hqr : q ≤ r) : p ≤ r := by
  obtain ⟨o, ho, hle⟩ := hpq
  obtain ⟨o', ho', hle'⟩ := hqr
  cases p <;> cases q <;> cases ho <;> cases r <;> cases ho' <;>
    exact ⟨_, rfl, Std.TransOrd.isLE_trans hle hle'⟩

theorem number_le_iff {x y : Int} : number x ≤ number y ↔ x ≤ y := by
  rw [← Int.isLE_compare]
  exact ⟨fun ⟨_, ho, hle⟩ => Option.some.inj ho ▸ hle, fun h => ⟨_, rfl, h⟩⟩

end Position

namespace Value

/-- Two integers that become the double between them, the first one being the greater. -/
inductive Blurred : Value → Value → Value → Prop where
  | intro {m n : Int64} {x : Binary64} (hlt : n.toInt < m.toInt)
      (hm : Binary64.compare? (.ofInt m.toInt) x = some .eq)
      (hn : Binary64.compare? (.ofInt n.toInt) x = some .eq) : Blurred (int m) (float x) (int n)

variable {a b c : Value}

theorem compareBy_lteq_eq_yes_iff :
    compareBy .lteq a b = .yes ↔ ∃ o, a.compare? b = some o ∧ o.isLE = true := by
  rw [compareBy_comparison (by decide)]
  cases a.compare? b with
  | none => simp
  | some o => cases o <;> simp [Operator.admits, Truth.ofBool]

theorem compareBy_lteq_int_iff {m n : Int64} :
    compareBy .lteq (int m) (int n) = .yes ↔ m.toInt ≤ n.toInt := by
  rw [compareBy_lteq_eq_yes_iff]
  exact Position.number_le_iff

/-- Equal values are at most equal in both orders. -/
theorem compareBy_eq_eq_yes_iff :
    compareBy .eq a b = .yes ↔ compareBy .lteq a b = .yes ∧ compareBy .lteq b a = .yes := by
  have hswap : compareBy .gteq a b = compareBy .lteq b a :=
    compareBy_mirrored (show Operator.lteq ∈ Operator.comparisons by decide) b a
  rw [← hswap, compareBy_comparison (by decide), compareBy_comparison (by decide),
    compareBy_comparison (by decide)]
  cases a.compare? b with
  | none => decide
  | some o => cases o <;> decide

/-- The positions of two values are in the order of the values. Two integers may share one. -/
theorem exists_positions_le (h : compareBy .lteq a b = .yes) :
    ∃ p q, a.position? = some p ∧ b.position? = some q ∧ p ≤ q := by
  by_cases hints : AreInts a b
  · obtain ⟨m, n, rfl, rfl⟩ := hints
    have hle := compareBy_lteq_int_iff.mp h
    exact ⟨_, _, rfl, rfl, Position.number_le_iff.mpr (Binary64.place_ofInt_mono hle)⟩
  · rw [compareBy_lteq_eq_yes_iff, compare?_eq_positions hints] at h
    obtain ⟨o, ho, hle⟩ := h
    obtain ⟨p, hp, ho⟩ := Option.bind_eq_some_iff.mp ho
    obtain ⟨q, hq, ho⟩ := Option.bind_eq_some_iff.mp ho
    exact ⟨p, q, hp, hq, o, ho, hle⟩

theorem compareBy_lteq_of_positions (hints : ¬AreInts a b) {p q : Position}
    (hp : a.position? = some p) (hq : b.position? = some q) (h : p ≤ q) :
    compareBy .lteq a b = .yes := by
  rw [compareBy_lteq_eq_yes_iff, compare?_eq_positions hints, hp, hq]
  exact h

/-! ## Integers with a value between them -/

theorem Blurred.not_le {m n : Int64} (h : Blurred (int m) b (int n)) : ¬m.toInt ≤ n.toInt := by
  cases h with
  | intro hlt => omega

/-- A double between two integers that are in the wrong order is what both of them become. -/
theorem blurred_of_between {m n : Int64} {x : Binary64} (hlt : n.toInt < m.toInt)
    (hm : compareBy .lteq (int m) (float x) = .yes)
    (hn : compareBy .lteq (float x) (int n) = .yes) : Blurred (int m) (float x) (int n) := by
  obtain ⟨o, ho, hle⟩ := compareBy_lteq_eq_yes_iff.mp hm
  obtain ⟨o', ho', hle'⟩ := compareBy_lteq_eq_yes_iff.mp hn
  obtain ⟨-, hx, rfl⟩ := Binary64.compare?_eq_some_iff.mp ho
  obtain ⟨-, -, rfl⟩ := Binary64.compare?_eq_some_iff.mp ho'
  rw [Int.isLE_compare] at hle hle'
  have hmono := Binary64.place_ofInt_mono hlt.le
  have hboth {k : Int64} (h : (Binary64.ofInt k.toInt).place = x.place) :
      Binary64.compare? (.ofInt k.toInt) x = some .eq :=
    Binary64.compare?_eq_some_iff.mpr ⟨Binary64.isNaN_ofInt _, hx, Int.compare_eq_eq.mpr h⟩
  exact .intro hlt (hboth (by omega)) (hboth (by omega))

theorem compareBy_lteq_int_trans {m n : Int64} (hab : compareBy .lteq (int m) b = .yes)
    (hbc : compareBy .lteq b (int n) = .yes) :
    compareBy .lteq (int m) (int n) = .yes ↔ ¬Blurred (int m) b (int n) := by
  rw [compareBy_lteq_int_iff]
  constructor
  · exact fun hle hblurred => hblurred.not_le hle
  · intro hblurred
    cases b with
    | int k =>
      rw [compareBy_lteq_int_iff] at hab hbc
      omega
    | float x =>
      by_contra! hlt
      exact hblurred (blurred_of_between hlt hab hbc)
    | _ => cases hab

/-- Different integers that become the same double have more than 53 bits. -/
theorem Blurred.large (h : Blurred a b c) :
    ∃ m n : Int64, a = int m ∧ c = int n ∧ 2 ^ 53 ≤ m.toInt.natAbs ∧ 2 ^ 53 ≤ n.toInt.natAbs := by
  cases h with
  | @intro m n x hlt hm hn =>
    obtain ⟨-, -, hm⟩ := Binary64.compare?_eq_some_iff.mp hm
    obtain ⟨-, -, hn⟩ := Binary64.compare?_eq_some_iff.mp hn
    rw [Int.compare_eq_eq] at hm hn
    have hlarge {k l : Int} (hne : k ≠ l)
        (h : (Binary64.ofInt k).place = (Binary64.ofInt l).place) : 2 ^ 53 ≤ k.natAbs := by
      by_contra! hsmall
      exact hne (Binary64.eq_of_place_ofInt_eq hsmall h)
    exact ⟨m, n, rfl, rfl, hlarge hlt.ne' (hm.trans hn.symm), hlarge hlt.ne (hn.trans hm.symm)⟩

/-! ## All values -/

theorem compareBy_lteq_trans (hab : compareBy .lteq a b = .yes) (hbc : compareBy .lteq b c = .yes) :
    compareBy .lteq a c = .yes ↔ ¬Blurred a b c := by
  by_cases hints : AreInts a c
  · obtain ⟨m, n, rfl, rfl⟩ := hints
    exact compareBy_lteq_int_trans hab hbc
  · obtain ⟨p, q, hp, hq, hpq⟩ := exists_positions_le hab
    obtain ⟨q', r, hq', hr, hqr⟩ := exists_positions_le hbc
    obtain rfl : q = q' := Option.some.inj (hq.symm.trans hq')
    refine iff_of_true (compareBy_lteq_of_positions hints hp hr (Position.le_trans hpq hqr)) ?_
    rintro ⟨hlt, hm, hn⟩
    exact hints ⟨_, _, rfl, rfl⟩

/-- The order is transitive but for two different integers that become the double between them, and
so is equality. -/
theorem compareBy_trans (a b c : Value) :
    (compareBy .lteq a b = .yes → compareBy .lteq b c = .yes →
      (compareBy .lteq a c = .yes ↔ ¬Blurred a b c)) ∧
    (compareBy .eq a b = .yes → compareBy .eq b c = .yes →
      (compareBy .eq a c = .yes ↔ ¬Blurred a b c ∧ ¬Blurred c b a)) ∧
    (Blurred a b c → ∃ m n : Int64, a = int m ∧ c = int n ∧
      2 ^ 53 ≤ m.toInt.natAbs ∧ 2 ^ 53 ≤ n.toInt.natAbs) := by
  refine ⟨compareBy_lteq_trans, fun hab hbc => ?_, Blurred.large⟩
  rw [compareBy_eq_eq_yes_iff] at hab hbc ⊢
  rw [compareBy_lteq_trans hab.1 hbc.1, compareBy_lteq_trans hbc.2 hab.2]

/-- An integer of 54 bits, the double that it becomes and the next integer, which is another
double; and both zeros with the integer between them. -/
theorem compareBy_trans_rounded :
    let x : Binary64 := ⟨0x4340000000000000⟩
    let minusZero : Binary64 := ⟨0x8000000000000000⟩
    compareBy .lteq (int 9007199254740993) (float x) = .yes ∧
      compareBy .lteq (float x) (int 9007199254740994) = .yes ∧
      ¬Blurred (int 9007199254740993) (float x) (int 9007199254740994) ∧
      compareBy .eq (float ⟨0⟩) (int 0) = .yes ∧ compareBy .eq (int 0) (float minusZero) = .yes ∧
      compareBy .eq (float ⟨0⟩) (float minusZero) = .yes := by
  intro x minusZero
  obtain ⟨hlteq, -⟩ := compareBy_trans (int 9007199254740993) (float x) (int 9007199254740994)
  have hm : compareBy .lteq (int 9007199254740993) (float x) = .yes := by decide +kernel
  have hn : compareBy .lteq (float x) (int 9007199254740994) = .yes := by decide +kernel
  obtain ⟨-, heq, -⟩ := compareBy_trans (float ⟨0⟩) (int 0) (float minusZero)
  have hzero : compareBy .eq (float ⟨0⟩) (int 0) = .yes := by decide +kernel
  have hminus : compareBy .eq (int 0) (float minusZero) = .yes := by decide +kernel
  exact ⟨hm, hn, (hlteq hm hn).mp (by decide), hzero, hminus,
    (heq hzero hminus).mpr ⟨nofun, nofun⟩⟩

/-- A double equals two integers that become it, and these do not equal each other. -/
theorem compareBy_not_trans :
    (¬∀ a b c : Value, compareBy .lteq a b = .yes → compareBy .lteq b c = .yes →
      compareBy .lteq a c ≠ .unknown → compareBy .lteq a c = .yes) ∧
    ¬∀ a b c : Value, compareBy .eq a b = .yes → compareBy .eq b c = .yes →
      compareBy .eq a c ≠ .unknown → compareBy .eq a c = .yes := by
  let m : Value := int 9007199254740993
  let x : Value := float ⟨0x4340000000000000⟩
  let n : Value := int 9007199254740992
  constructor
  · intro h
    have hac := h m x n (by decide +kernel) (by decide +kernel) (by decide)
    revert hac
    decide
  · intro h
    have hac := h m x n (by decide +kernel) (by decide +kernel) (by decide)
    revert hac
    decide

end Value

end RowPolicy
