import RowPolicy.Proofs.PolicyText.Surroundings

/-!
# Integers in policy text

An integer is tried after dates and doubles, which start with digits as well, and an integer with a
minus is read by another reader than one without. Either way its digits are read whole, and the
number is exact or there is none: too many digits behind a minus are a fault, and without a minus
they are no literal, which no place for a literal can do without.

The main statement is `parse_integer`, for any place in any text and for integers of any length.
-/
namespace RowPolicy

namespace Numeral

theorem exists_toInt_eq_iff {n : Int} :
    (∃ m : Int64, m.toInt = n) ↔ -(2 : Int) ^ 63 ≤ n ∧ n < 2 ^ 63 := by
  constructor
  · rintro ⟨m, rfl⟩
    exact ⟨Int64.le_toInt m, Int64.toInt_lt m⟩
  · rintro ⟨hle, hlt⟩
    exact ⟨Int64.ofInt n, Int64.toInt_ofInt_of_le hle hlt⟩

end Numeral

namespace PolicyText

variable {rest after : List Char} {n : Int}

/-- White space, a comma, a bracket or a brace, which neither goes on with a number nor makes it
part of another token. -/
def EndsInteger (after : List Char) : Prop :=
  ∃ c ∈ after.head?, isSpace c = true ∨ c ∈ [',', ']', '\x7d']

theorem EndsInteger.isNameChar_eq_false (h : EndsInteger after) :
    ∀ c ∈ after.head?, isNameChar c = false := by
  obtain ⟨d, hd, hend⟩ := h
  intro c hc
  obtain rfl : d = c := Option.mem_unique hd hc
  rcases hend with hspace | hmark
  · simp only [isSpace, Bool.or_eq_true, beq_iff_eq] at hspace
    rcases hspace with (((rfl | rfl) | rfl) | rfl) | rfl <;> rfl
  · simp only [List.mem_cons, List.not_mem_nil, or_false] at hmark
    rcases hmark with rfl | rfl | rfl <;> rfl

theorem EndsInteger.dash_notMem (h : EndsInteger after) : '-' ∉ after.head? := by
  obtain ⟨d, hd, hend⟩ := h
  intro hc
  obtain rfl : d = '-' := Option.mem_unique hd hc
  exact absurd hend (by decide)

/-- In front of an integer there is neither a bracket nor anything that is skipped. -/
theorem literal_decimal (hdecimal : skip rest = (Numeral.decimal n).toList ++ after) :
    literal rest = scalar ((Numeral.decimal n).toList ++ after) ∧ ']' ∉ (skip rest).head? := by
  obtain ⟨c, cs, hcons, hc⟩ := Numeral.exists_cons_decimal n
  have hne {d : Char} (hdash : d ≠ '-') (hdigit : Numeral.isDigit d = false) : c ≠ d := by
    rintro rfl
    rcases hc with rfl | hc
    · exact hdash rfl
    · rw [hdigit] at hc
      cases hc
  rw [hcons, List.cons_append] at hdecimal
  constructor
  · rw [literal_of_scalar hdecimal (hne (by decide) (by decide)), hcons, List.cons_append]
  · rw [hdecimal, List.head?_cons, Option.mem_some_iff]
    exact hne (by decide) (by decide)

/-- An integer of 64 bits is that literal. -/
theorem scalar_decimal {m : Int64} (hends : EndsInteger after) :
    scalar ((Numeral.decimal m.toInt).toList ++ after) = .found (.int m) after := by
  rw [Numeral.toList_decimal, scalar, scalar?_int (Numeral.negateIf_natAbs m.toInt)
    hends.isNameChar_eq_false hends.dash_notMem]

/-- An integer of more bits is no literal, nor is anything at its front. -/
theorem scalar_decimal_ne_found (hbits : ¬ ∃ m : Int64, m.toInt = n) (hends : EndsInteger after)
    (v : Value) (r : List Char) : scalar ((Numeral.decimal n).toList ++ after) ≠ .found v r := by
  have hfit : Numeral.fit64? n = none := by
    rw [Option.eq_none_iff_forall_ne_some]
    exact fun m hm => hbits ⟨m, Numeral.fit64?_eq_some_iff.mp hm⟩
  have hstop := hends.isNameChar_eq_false
  rw [Numeral.toList_decimal, scalar]
  by_cases hneg : n < 0
  · have hread := scalar?_minus (negative?_digits n.natAbs hstop)
    rw [show -(n.natAbs : Int) = n by omega, hfit] at hread
    simp [hneg, Numeral.minusIf, hread]
  · have hread := scalar?_natural n.natAbs hstop hends.dash_notMem
    rw [show (n.natAbs : Int) = n by omega, hfit] at hread
    simp [hneg, Numeral.minusIf, hread]

/-- At each place a number of 64 bits is read exactly, and a text with a larger one is rejected.
Whether the text is accepted depends then on what stands behind the number alone. -/
theorem parse_integer {p : Place} {text : String} (hreach : p.Reaches text.toList rest)
    (hdecimal : skip rest = (Numeral.decimal n).toList ++ after) (hends : EndsInteger after) :
    (-(2 : Int) ^ 63 ≤ n ∧ n < 2 ^ 63 →
      ∃ m : Int64, m.toInt = n ∧ literal rest = .found (.int m) after ∧
        ((∃ bs, parse text = .ok bs) ↔ Finishes p.path.length after) ∧
        ∀ bs, parse text = .ok bs → p.value? bs = some (.int m)) ∧
    (¬ (-(2 : Int) ^ 63 ≤ n ∧ n < 2 ^ 63) → ∃ e, parse text = .error e) := by
  obtain ⟨hliteral, hstop⟩ := literal_decimal hdecimal
  rw [← Numeral.exists_toInt_eq_iff]
  constructor
  · rintro ⟨m, rfl⟩
    have hread : literal rest = .found (.int m) after := hliteral.trans (scalar_decimal hends)
    have hfound {bs : List (String × Policy)} (hbs : parse text = .ok bs) :
        Finishes p.path.length after ∧ p.value? bs = some (.int m) := by
      obtain ⟨v, after', hv, hfinishes, hvalue⟩ :=
        hreach.exists_found hstop (parse_eq_ok_iff.mp hbs)
      rw [hread] at hv
      cases hv
      exact ⟨hfinishes, hvalue⟩
    refine ⟨m, rfl, hread, ⟨?_, ?_⟩, fun bs hbs => (hfound hbs).2⟩
    · rintro ⟨bs, hbs⟩
      exact (hfound hbs).1
    · intro hfinishes
      obtain ⟨bs, hbs⟩ := hreach.exists_blocks hread hfinishes
      exact ⟨bs, parse_eq_ok_iff.mpr hbs⟩
  · intro hbits
    cases hparse : parse text with
    | error e => exact ⟨e, rfl⟩
    | ok bs =>
      obtain ⟨v, after', hv, -, -⟩ := hreach.exists_found hstop (parse_eq_ok_iff.mp hparse)
      rw [hliteral] at hv
      exact absurd hv (scalar_decimal_ne_found hbits hends v after')

/-- The second item of a list in a second condition, whatever is written there. -/
theorem reaches_second_item (cs : List Char) :
    Place.Reaches ⟨0, 1, [1]⟩ ("policy r deny\x7ba==1 b in[[],".toList ++ cs) cs := by
  have hword : literally? "policy".toList
      (skip ("policy r deny\x7ba==1 b in[[],".toList ++ cs)) =
        some (" r deny\x7ba==1 b in[[],".toList ++ cs) := by cbv
  have hresource : name? (skip (" r deny\x7ba==1 b in[[],".toList ++ cs)) =
      some (['r'], " deny\x7ba==1 b in[[],".toList ++ cs) := by cbv
  have heffect : name? (skip (" deny\x7ba==1 b in[[],".toList ++ cs)) =
      some ("deny".toList, "\x7ba==1 b in[[],".toList ++ cs) := by cbv
  have hbefore : condition ("a==1 b in[[],".toList ++ cs) =
      .found ⟨"a", "==", .int 1⟩ (" b in[[],".toList ++ cs) := by cbv
  have hcolumn : name? (skip (" b in[[],".toList ++ cs)) =
      some (['b'], " in[[],".toList ++ cs) := by cbv
  have hoperator : operator? (skip (" in[[],".toList ++ cs)) =
      some ("in".toList, "[[],".toList ++ cs) := by cbv
  have hitem : literal ("[],".toList ++ cs) = .found (.list []) (',' :: cs) :=
    literal_of_items (skip_solid (by decide) _) (items_of_close (skip_solid (by decide) _))
      (skip_solid (by decide) _)
  exact .mk .nil hword hresource heffect (skip_solid (by decide) _) (.cons hbefore .nil) hcolumn
    hoperator (.list (skip_solid (by decide) _)
      (.later hitem (skip_solid (by decide) _) (.first .here)))

/-- The least number of 64 bits in a list, and the one below it. -/
theorem parse_integer_least :
    let least := "policy r deny\x7ba==1 b in[[],-9223372036854775808]\x7d"
    let below := "policy r deny\x7ba==1 b in[[],-9223372036854775809]\x7d"
    (∃ bs, parse least = .ok bs ∧
      Place.value? ⟨0, 1, [1]⟩ bs = some (.int Int64.minValue)) ∧
    ∃ e, parse below = .error e := by
  intro least below
  have hends : EndsInteger [']', '\x7d'] := ⟨']', rfl, by decide⟩
  have hleast : Place.Reaches ⟨0, 1, [1]⟩ least.toList "-9223372036854775808]\x7d".toList := by
    simpa [least] using reaches_second_item "-9223372036854775808]\x7d".toList
  have hbelow : Place.Reaches ⟨0, 1, [1]⟩ below.toList "-9223372036854775809]\x7d".toList := by
    simpa [below] using reaches_second_item "-9223372036854775809]\x7d".toList
  constructor
  · have hdecimal : skip "-9223372036854775808]\x7d".toList =
        (Numeral.decimal (-9223372036854775808)).toList ++ [']', '\x7d'] := by cbv
    obtain ⟨m, hm, -, hiff, hvalue⟩ := (parse_integer hleast hdecimal hends).1 (by decide)
    obtain rfl : m = Int64.minValue := Int64.toInt_inj.mp hm
    have hlists : Closes 1 [']', '\x7d'] ['\x7d'] :=
      .list .none (furtherItems_of_close (skip_solid (by decide) _)) (skip_solid (by decide) _)
    have hmany : many condition ['\x7d'] = .ok ([], ['\x7d']) :=
      many_of_absent (condition_of_close (skip_solid (by decide) _))
    obtain ⟨bs, hbs⟩ := hiff.mpr (.mk hlists hmany (skip_solid (by decide) _) (by cbv))
    exact ⟨bs, hbs, hvalue bs hbs⟩
  · have hdecimal : skip "-9223372036854775809]\x7d".toList =
        (Numeral.decimal (-9223372036854775809)).toList ++ [']', '\x7d'] := by cbv
    exact (parse_integer hbelow hdecimal hends).2 (by decide)

end PolicyText

end RowPolicy
