import RowPolicy.Calendar.Date

/-!
# Digits that read back

A natural number in digits, without leading zeros or filled up with them to a width, denotes that
number again. From this an integer of 64 bits reads back behind its sign, and digits with a point
among them read as the double that they denote.
-/
namespace RowPolicy

/-- A run of characters of a kind ends where a character of another kind follows. -/
theorem span_append {p : Char → Bool} {run rest : List Char} (h : ∀ c ∈ run, p c = true)
    (stop : ∀ c ∈ rest.head?, p c = false) :
    (run ++ rest).takeWhile p = run ∧ (run ++ rest).dropWhile p = rest := by
  rw [List.takeWhile_append_of_pos h, List.dropWhile_append_of_pos h]
  cases rest with
  | nil => simp
  | cons c cs => simp [stop c rfl]

namespace Numeral

theorem isDigit_eq (c : Char) : isDigit c = c.isDigit := rfl

theorem toNat_of_isDigit {c : Char} (h : isDigit c = true) : 48 ≤ c.toNat ∧ c.toNat ≤ 57 := by
  simpa [isDigit, Char.le_def, UInt32.le_iff_toNat_le] using h

theorem isDigit_of_mem_toDigits {n : Nat} {c : Char} (h : c ∈ Nat.toDigits 10 n) :
    isDigit c = true := by
  rw [isDigit_eq]
  exact Nat.isDigit_of_mem_toDigits (by decide) (by decide) h

/-- Zero is the only number whose digits start with a zero. -/
theorem head?_toDigits_ne {n : Nat} (h : n ≠ 0) : (Nat.toDigits 10 n).head? ≠ some '0' := by
  induction n using Nat.strongRecOn with
  | ind n ih =>
    by_cases hlt : n < 10
    · have hdigit : ∀ d < 10, d ≠ 0 → Nat.digitChar d ≠ '0' := by decide
      rw [Nat.toDigits_of_lt_base hlt, List.head?_cons, ne_eq, Option.some_inj]
      exact hdigit n hlt h
    · have hne : Nat.toDigits 10 (n / 10) ≠ [] := Nat.toDigits_ne_nil
      rw [Nat.toDigits_of_base_le (by decide) (by omega), List.head?_append,
        List.head?_eq_some_head hne, Option.some_or, ← List.head?_eq_some_head hne]
      exact ih (n / 10) (by omega) (by omega)

/-! ## Fields of a width -/

/-- Digits with zeros in front, up to a width. -/
def padded (width n : Nat) : List Char :=
  List.replicate (width - (Nat.toDigits 10 n).length) '0' ++ Nat.toDigits 10 n

theorem length_toDigits_le_two {n : Nat} (h : n < 100) : (Nat.toDigits 10 n).length ≤ 2 :=
  (Nat.length_toDigits_le_iff (by decide) (by decide)).mpr h

theorem length_toDigits_le_four {n : Nat} (h : n < 10000) : (Nat.toDigits 10 n).length ≤ 4 :=
  (Nat.length_toDigits_le_iff (by decide) (by decide)).mpr h

theorem length_padded {width n : Nat} (h : (Nat.toDigits 10 n).length ≤ width) :
    (padded width n).length = width := by
  simp [padded]
  omega

theorem padded_ne_nil (width n : Nat) : padded width n ≠ [] :=
  List.append_ne_nil_of_right_ne_nil _ Nat.toDigits_ne_nil

theorem isDigit_of_mem_padded {width n : Nat} {c : Char} (h : c ∈ padded width n) :
    isDigit c = true := by
  rcases List.mem_append.mp h with hzero | hdigit
  · rw [List.eq_of_mem_replicate hzero]
    rfl
  · exact isDigit_of_mem_toDigits hdigit

theorem value_padded (width n : Nat) : value (padded width n) = n := by
  rw [value, padded, Nat.ofDigitChars_append, Nat.ofDigitChars_replicate_zero, Nat.mul_zero,
    Nat.ofDigitChars_ten_toDigits]

theorem twoDigits_eq (n : Nat) : twoDigits n = padded 2 n := rfl

theorem fourDigits_eq (n : Nat) : fourDigits n = padded 4 n := rfl

/-! ## Numbers of 64 bits -/

theorem natural?_eq_some {digits : List Char} (hne : digits ≠ [])
    (h : ∀ c ∈ digits, isDigit c = true) : natural? digits = some (value digits) := by
  have hall : digits.all isDigit = true := List.all_eq_true.mpr h
  simp [natural?, hne, hall]

theorem fit64?_toInt (n : Int64) : fit64? n.toInt = some n := by
  rw [fit64?, if_pos ⟨Int64.minValue_le_toInt n, Int64.toInt_le n⟩, Int64.ofInt_toInt]

theorem fit64?_eq_some_iff {n : Int} {m : Int64} : fit64? n = some m ↔ m.toInt = n := by
  constructor
  · intro h
    obtain ⟨⟨hle, hge⟩, hfound⟩ := Option.ite_none_right_eq_some.mp h
    cases hfound
    exact Int64.toInt_ofInt_of_le hle (Int.lt_of_le_of_lt hge (by decide))
  · rintro rfl
    exact fit64?_toInt m

/-- The sign of a negative number. -/
def minusIf (negative : Bool) : List Char := if negative then ['-'] else []

theorem sign_minusIf {cs : List Char} (negative : Bool) (h : ∀ c ∈ cs.head?, c ≠ '-' ∧ c ≠ '+') :
    sign (minusIf negative ++ cs) = (negative, cs) := by
  cases negative with
  | true => rfl
  | false =>
    simp only [minusIf, Bool.false_eq_true, if_false, List.nil_append]
    unfold sign
    split
    · exact absurd rfl (h '-' rfl).1
    · exact absurd rfl (h '+' rfl).2
    · rfl

theorem ne_of_isDigit {c d : Char} (hc : isDigit c = true) (hd : isDigit d = false) : c ≠ d := by
  grind

theorem point_notMem {digits : List Char} (h : ∀ c ∈ digits, isDigit c = true) : '.' ∉ digits :=
  fun hmem => absurd (h '.' hmem) (by decide)

/-- Digits behind a sign are tried as an integer of 64 bits. -/
theorem int64?_minusIf {digits : List Char} (negative : Bool) (hne : digits ≠ [])
    (h : ∀ c ∈ digits, isDigit c = true) :
    int64? (minusIf negative ++ digits) = fit64? (negateIf negative (value digits)) := by
  have hsign : sign (minusIf negative ++ digits) = (negative, digits) := by
    refine sign_minusIf negative fun c hc => ?_
    have hdigit := h c (List.mem_of_head? hc)
    exact ⟨ne_of_isDigit hdigit rfl, ne_of_isDigit hdigit rfl⟩
  simp [int64?, integer?, hsign, natural?_eq_some hne h]

theorem int64?_digits (negative : Bool) (m : Nat) :
    int64? (minusIf negative ++ Nat.toDigits 10 m) = fit64? (negateIf negative m) := by
  rw [int64?_minusIf negative Nat.toDigits_ne_nil fun _ => isDigit_of_mem_toDigits, value_toDigits]

/-! ## Decimal text -/

theorem toList_decimal (n : Int) :
    (decimal n).toList =
      minusIf (decide (n < 0)) ++ Nat.toDigits 10 n.natAbs := by
  by_cases h : n < 0 <;> simp [decimal, minusIf, h]

theorem negateIf_natAbs (n : Int) : negateIf (decide (n < 0)) n.natAbs = n := by
  by_cases h : n < 0
  · rw [negateIf, if_pos (decide_eq_true h)]
    omega
  · rw [negateIf, if_neg (by simpa using h)]
    omega

/-- An integer of 64 bits reads back from its decimal text. -/
theorem int64?_decimal (n : Int64) : int64? (decimal n.toInt).toList = some n := by
  rw [toList_decimal, int64?_digits, negateIf_natAbs, fit64?_toInt]

/-- The first character of an integer. -/
theorem exists_cons_decimal (n : Int) :
    ∃ c cs, (decimal n).toList = c :: cs ∧ (c = '-' ∨ isDigit c = true) := by
  have hne : Nat.toDigits 10 n.natAbs ≠ [] := Nat.toDigits_ne_nil
  obtain ⟨c, cs, hcons⟩ := List.exists_cons_of_ne_nil hne
  have hmem : c ∈ Nat.toDigits 10 n.natAbs := by simp [hcons]
  have hdigit : isDigit c = true := isDigit_of_mem_toDigits hmem
  rw [toList_decimal, hcons]
  by_cases h : n < 0
  · exact ⟨'-', c :: cs, by simp [minusIf, h], .inl rfl⟩
  · exact ⟨c, cs, by simp [minusIf, h], .inr hdigit⟩

/-! ## Doubles -/

/-- A word that starts with another letter is not meant. -/
theorem isWord_cons_eq_false {word : String} {c : Char} {cs : List Char}
    (h : word.toList.head? ≠ some c.toLower) : isWord word (c :: cs) = false := by
  rw [isWord, beq_eq_false_iff_ne]
  rintro rfl
  simp at h

/-- A word with a letter that the other does not have is not meant. -/
theorem isWord_eq_false {word : String} {c : Char} {cs : List Char} (hc : c ∈ cs)
    (h : c.toLower ∉ word.toList) : isWord word cs = false := by
  rw [isWord, beq_eq_false_iff_ne]
  rintro rfl
  exact h (by simpa using ⟨c, hc, rfl⟩)

theorem toLower_of_isDigit {c : Char} (h : isDigit c = true) : c.toLower = c := by
  have hle : c ≤ '9' := by
    simp only [isDigit, Bool.and_eq_true, decide_eq_true_eq] at h
    exact h.2
  have hupper : ¬ (c.val ≥ 'A'.val ∧ c.val ≤ 'Z'.val) := by
    rintro ⟨hge, -⟩
    exact absurd (UInt32.le_trans hge hle) (by decide)
  exact dif_neg hupper

theorem magnitude?_decimal {whole places : List Char} (negative : Bool)
    (hne : whole ≠ [] ∨ places ≠ []) (hw : ∀ c ∈ whole, isDigit c = true)
    (hp : ∀ c ∈ places, isDigit c = true) :
    magnitude? negative (whole ++ '.' :: places) =
      some (.ofDecimal negative (value (whole ++ places)) (-places.length)) := by
  have hpoint : ∀ c ∈ ('.' :: places).head?, isDigit c = false := by simp [isDigit]
  have hend : ∀ c ∈ ([] : List Char).head?, isDigit c = false := by simp
  obtain ⟨htake, hdrop⟩ := span_append hw hpoint
  obtain ⟨htake', hdrop'⟩ := span_append hp hend
  rw [List.append_nil] at htake' hdrop'
  have hnil : ¬ (whole = [] ∧ places = []) := by grind
  simp [magnitude?, htake, hdrop, htake', hdrop', exponent?, hnil]

/-- A number has one point at most. -/
theorem magnitude?_points {whole places : List Char} (negative : Bool)
    (hw : ∀ c ∈ whole, isDigit c = true) (hp : ∀ c ∈ places, isDigit c = true)
    (more : List Char) : magnitude? negative (whole ++ '.' :: (places ++ '.' :: more)) = none := by
  have hpoint (cs : List Char) : ∀ c ∈ ('.' :: cs).head?, isDigit c = false := by simp [isDigit]
  obtain ⟨htake, hdrop⟩ := span_append hw (hpoint (places ++ '.' :: more))
  obtain ⟨htake', hdrop'⟩ := span_append hp (hpoint more)
  simp [magnitude?, htake, hdrop, htake', hdrop', exponent?]

theorem isDigit_or_point {whole cs : List Char} (hw : ∀ c ∈ whole, isDigit c = true)
    (h : ∀ c ∈ cs, isDigit c = true ∨ c = '.') :
    ∀ c ∈ whole ++ '.' :: cs, isDigit c = true ∨ c = '.' := by
  grind

/-- A text with a point in it is none of the words. -/
theorem binary64?_minusIf {cs : List Char} (negative : Bool) (hpoint : '.' ∈ cs)
    (h : ∀ c ∈ cs, isDigit c = true ∨ c = '.') :
    binary64? (minusIf negative ++ cs) = magnitude? negative cs := by
  have hsign : sign (minusIf negative ++ cs) = (negative, cs) := by
    refine sign_minusIf negative fun c hc => ?_
    rcases h c (List.mem_of_head? hc) with hdigit | rfl
    · exact ⟨ne_of_isDigit hdigit rfl, ne_of_isDigit hdigit rfl⟩
    · decide
  have hinf : isWord "inf" cs = false := isWord_eq_false hpoint (by decide)
  have hinfinity : isWord "infinity" cs = false := isWord_eq_false hpoint (by decide)
  have hnan : isWord "nan" cs = false := isWord_eq_false hpoint (by decide)
  rw [binary64?, hsign]
  simp [hinf, hinfinity, hnan]

/-- Digits with a point among them read as the double that they denote. -/
theorem binary64?_decimal {whole places : List Char} (negative : Bool)
    (hne : whole ≠ [] ∨ places ≠ []) (hw : ∀ c ∈ whole, isDigit c = true)
    (hp : ∀ c ∈ places, isDigit c = true) :
    binary64? (minusIf negative ++ (whole ++ '.' :: places)) =
      some (.ofDecimal negative (value (whole ++ places)) (-places.length)) := by
  have hbody := isDigit_or_point hw fun c hc => .inl (hp c hc)
  rw [binary64?_minusIf negative (by simp) hbody, magnitude?_decimal negative hne hw hp]

end Numeral

end RowPolicy
