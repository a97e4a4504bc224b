import RowPolicy.Proofs.Number.Product
import RowPolicy.Proofs.PolicyText.Integers

/-!
# Numbers with and without a minus

Behind a minus any digits and points are taken together and then tried as a number. Without a minus
there are two readers, one for doubles, which need digits on both sides of the point, and one for
integers, which start with no zero but zero itself. What these two do not take whole leaves digits
or points, and no text goes on with these behind a value.

So a number without a minus is read where the same number with a minus is, and as the opposite
value, but only if it is written in the stricter way. The main statement is `parse_minus`.
-/
namespace RowPolicy

namespace Binary64

theorem isNegative_ofMagnitude (negative : Bool) {m : Nat} (h : m < signWeight) :
    (ofMagnitude negative m).isNegative = negative := by
  cases negative <;> simp [isNegative, ofMagnitude, signWeight] at * <;> omega

/-- Both signs round to one magnitude. -/
theorem exists_ofDecimal_eq (digits : Nat) (exponent : Int) :
    ∃ m < signWeight, ∀ negative, ofDecimal negative digits exponent = ofMagnitude negative m := by
  obtain ⟨m, hm, -⟩ := rounds_ofDecimal false digits exponent
  refine ⟨min infinityMagnitude m, (Nat.min_le_left _ _).trans_lt (by decide), fun negative => ?_⟩
  obtain ⟨k, hk, hround⟩ := rounds_ofDecimal negative digits exponent
  rw [hround, hk.unique hm]

end Binary64

/-- Two integers or two doubles, of which the second one is the negative of the first one. -/
inductive Value.Opposite : Value → Value → Prop where
  | int {m n : Int64} (h : n.toInt = -m.toInt) : Opposite (.int m) (.int n)
  | float {x y : Binary64} (size : y.magnitude = x.magnitude)
    (sign : y.isNegative = !x.isNegative) : Opposite (.float x) (.float y)

theorem Value.opposite_ofDecimal (digits : Nat) (exponent : Int) :
    Opposite (.float (.ofDecimal false digits exponent))
      (.float (.ofDecimal true digits exponent)) := by
  obtain ⟨m, hm, hround⟩ := Binary64.exists_ofDecimal_eq digits exponent
  rw [hround, hround]
  refine .float ?_ ?_
  · rw [Binary64.magnitude_ofMagnitude _ hm, Binary64.magnitude_ofMagnitude _ hm]
  · rw [Binary64.isNegative_ofMagnitude _ hm, Binary64.isNegative_ofMagnitude _ hm]
    rfl

namespace PolicyText

variable {t whole places rest after : List Char}

/-! ## Digits and points -/

/-- Digits at both ends, and a zero in front of an integer only if it is all. -/
structure IsBare (t : List Char) : Prop where
  front : t.head? ≠ some '.'
  back : t.getLast? ≠ some '.'
  zero : '.' ∉ t → t.head? = some '0' → t = ['0']

/-- Digits, with one point or with several ones among them. -/
inductive Arrangement : List Char → Prop where
  | digits {t : List Char} (h : IsDigits t) : Arrangement t
  | decimal {whole places : List Char} (hw : ∀ c ∈ whole, Numeral.isDigit c = true)
    (hp : ∀ c ∈ places, Numeral.isDigit c = true) : Arrangement (whole ++ '.' :: places)
  | further {whole places more : List Char} (hw : ∀ c ∈ whole, Numeral.isDigit c = true)
    (hp : ∀ c ∈ places, Numeral.isDigit c = true)
    (hm : ∀ c ∈ more, Numeral.isDigit c = true ∨ c = '.') :
    Arrangement (whole ++ '.' :: (places ++ '.' :: more))

theorem arrangement (hne : t ≠ []) (h : ∀ c ∈ t, Numeral.isDigit c = true ∨ c = '.') :
    Arrangement t := by
  have hdigits {cs : List Char} (hcs : ∀ c ∈ cs, Numeral.isDigit c = true ∨ c = '.')
      (hpoint : '.' ∉ cs) : ∀ c ∈ cs, Numeral.isDigit c = true := by
    intro c hc
    exact (hcs c hc).resolve_right fun heq => hpoint (heq ▸ hc)
  by_cases hpoint : '.' ∈ t
  · obtain ⟨whole, tail, rfl, hwhole⟩ := List.eq_append_cons_of_mem hpoint
    obtain ⟨hw, htail⟩ := List.forall_mem_append.mp h
    have htail := (List.forall_mem_cons.mp htail).2
    by_cases hpoint' : '.' ∈ tail
    · obtain ⟨places, more, rfl, hplaces⟩ := List.eq_append_cons_of_mem hpoint'
      obtain ⟨hp, hmore⟩ := List.forall_mem_append.mp htail
      exact .further (hdigits hw hwhole) (hdigits hp hplaces) (List.forall_mem_cons.mp hmore).2
    · exact .decimal (hdigits hw hwhole) (hdigits htail hpoint')
  · exact .digits ⟨hne, hdigits h hpoint⟩

theorem isBare_digits_iff (h : ∀ c ∈ t, Numeral.isDigit c = true) :
    IsBare t ↔ (t.head? = some '0' → t = ['0']) := by
  have hnone := Numeral.point_notMem h
  constructor
  · intro hbare
    exact hbare.zero hnone
  · intro hzero
    refine ⟨fun hhead => ?_, fun hlast => ?_, fun _ => hzero⟩
    · exact hnone (List.mem_of_head? hhead)
    · exact hnone (List.mem_of_getLast? hlast)

theorem isBare_decimal_iff (hw : ∀ c ∈ whole, Numeral.isDigit c = true)
    (hp : ∀ c ∈ places, Numeral.isDigit c = true) :
    IsBare (whole ++ '.' :: places) ↔ whole ≠ [] ∧ places ≠ [] := by
  constructor
  · intro hbare
    constructor
    · rintro rfl
      exact hbare.front rfl
    · rintro rfl
      exact hbare.back (by simp)
  · rintro ⟨hwhole, hplaces⟩
    refine ⟨fun hhead => ?_, fun hlast => ?_, fun hpoint => absurd (by simp) hpoint⟩
    · rw [List.head?_append_of_ne_nil _ hwhole] at hhead
      exact Numeral.point_notMem hw (List.mem_of_head? hhead)
    · rw [List.getLast?_append_of_ne_nil _ (by simp), List.getLast?_cons_of_ne_nil hplaces] at hlast
      exact Numeral.point_notMem hp (List.mem_of_getLast? hlast)

/-- Neither a digit nor a point goes on with a number, nor does a dash make it a date. -/
def EndsNumber (after : List Char) : Prop :=
  ∀ c ∈ after.head?, (Numeral.isDigit c = false ∧ c ≠ '.') ∧ c ≠ '-'

/-! ## What is read whole -/

theorem scalar?_of_digits (h : IsDigits t) (hends : EndsNumber after) :
    scalar? (t ++ after) =
      if t.head? = some '0' then some (some (.int 0), t.tail ++ after)
      else (Numeral.fit64? (Numeral.value t)).map fun n => (some (.int n), after) := by
  rw [scalar?_number h fun c hc => ⟨(hends c hc).1.1, (hends c hc).2⟩,
    decimal?_eq_none h fun c hc => (hends c hc).1, Option.none_or,
    integer?_append h fun c hc => (hends c hc).1.1]

theorem scalar_of_digits (h : IsDigits t) (hends : EndsNumber after)
    (hbits : Numeral.value t < 2 ^ 63) (hzero : t.head? = some '0' → t = ['0']) :
    ∃ n : Int64, n.toInt = Numeral.value t ∧ scalar (t ++ after) = .found (.int n) after := by
  obtain ⟨n, hn⟩ := Numeral.exists_toInt_eq_iff.mpr
    (show -(2 : Int) ^ 63 ≤ Numeral.value t ∧ (Numeral.value t : Int) < 2 ^ 63 by omega)
  refine ⟨n, hn, ?_⟩
  rw [scalar_eq_found_iff, scalar?_of_digits h hends, Numeral.fit64?_eq_some_iff.mpr hn]
  split
  · next hhead =>
    obtain rfl := hzero hhead
    obtain rfl : n = 0 := Int64.toInt_inj.mp hn
    rfl
  · rfl

theorem scalar_minus_of_digits (h : IsDigits t) (hends : EndsNumber after)
    (hbits : Numeral.value t < 2 ^ 63) :
    ∃ n : Int64, n.toInt = -Numeral.value t ∧
      scalar ('-' :: (t ++ after)) = .found (.int n) after := by
  obtain ⟨n, hn⟩ := Numeral.exists_toInt_eq_iff.mpr
    (show -(2 : Int) ^ 63 ≤ -Numeral.value t ∧ -(Numeral.value t : Int) < 2 ^ 63 by omega)
  refine ⟨n, hn, ?_⟩
  rw [scalar, scalar?_minus (negative?_integer h fun c hc => (hends c hc).1),
    Numeral.fit64?_eq_some_iff.mpr hn]
  rfl

theorem scalar_of_decimal (hw : IsDigits whole) (hp : IsDigits places)
    (stop : ∀ c ∈ rest.head?, Numeral.isDigit c = false) :
    scalar (whole ++ '.' :: places ++ rest) =
      .found (.float (.ofDecimal false (Numeral.value (whole ++ places)) (-places.length))) rest := by
  rw [List.append_assoc, List.cons_append, scalar, scalar?_number hw (by simp [Numeral.isDigit]),
    decimal?_float hw hp stop, Option.some_or]

theorem scalar_minus_of_decimal (hne : whole ≠ [] ∨ places ≠ [])
    (hw : ∀ c ∈ whole, Numeral.isDigit c = true) (hp : ∀ c ∈ places, Numeral.isDigit c = true)
    (hends : EndsNumber after) :
    scalar ('-' :: (whole ++ '.' :: places ++ after)) =
      .found (.float (.ofDecimal true (Numeral.value (whole ++ places)) (-places.length))) after := by
  rw [scalar, scalar?_minus (negative?_float hne hw hp fun c hc => (hends c hc).1)]

/-- Behind a minus there is one point at most. -/
theorem scalar_minus_of_points {more : List Char} (hw : ∀ c ∈ whole, Numeral.isDigit c = true)
    (hp : ∀ c ∈ places, Numeral.isDigit c = true)
    (hm : ∀ c ∈ more, Numeral.isDigit c = true ∨ c = '.') (hends : EndsNumber after) :
    scalar ('-' :: (whole ++ '.' :: (places ++ '.' :: more) ++ after)) =
      .fault ⟨after, [.value]⟩ := by
  have hbody := Numeral.isDigit_or_point hw (Numeral.isDigit_or_point hp hm)
  have hnone : Numeral.binary64? ('-' :: (whole ++ '.' :: (places ++ '.' :: more))) = none :=
    (Numeral.binary64?_minusIf true (by simp) hbody).trans (Numeral.magnitude?_points true hw hp more)
  have hpoint : (whole ++ '.' :: (places ++ '.' :: more)).contains '.' = true := by simp
  have hread := negative?_append (by simp) hbody fun c hc => (hends c hc).1
  rw [hpoint, hnone] at hread
  rw [scalar, scalar?_minus hread]
  rfl

/-! ## What leaves a part -/

/-- If a value is found, a digit or a point is left behind it. -/
def LeavesPart (o : Outcome Value) : Prop :=
  ∀ v r, o = .found v r → ∃ c ∈ r.head?, Numeral.isDigit c = true ∨ c = '.'

theorem leavesPart_of_zero (h : IsDigits t) (hends : EndsNumber after) (hhead : t.head? = some '0')
    (hne : t ≠ ['0']) : LeavesPart (scalar (t ++ after)) := by
  intro v r hfound
  rw [scalar_eq_found_iff, scalar?_of_digits h hends, if_pos hhead] at hfound
  cases hfound
  obtain ⟨digits, rfl⟩ := List.head?_eq_some_iff.mp hhead
  cases digits with
  | nil => exact absurd rfl hne
  | cons d digits => exact ⟨d, rfl, .inl (h.2 d (by simp))⟩

theorem run?_eq_none {kind : Char → Bool} (stop : ∀ c ∈ rest.head?, kind c = false) :
    run? kind rest = none := by
  cases rest with
  | nil => rfl
  | cons c rest => simp [run?, stop c rfl]

/-- A point needs digits on both sides. -/
theorem leavesPart_of_point (hw : ∀ c ∈ whole, Numeral.isDigit c = true)
    (stop : whole = [] ∨ ∀ c ∈ rest.head?, Numeral.isDigit c = false) :
    LeavesPart (scalar (whole ++ '.' :: rest)) := by
  intro v r hfound
  rw [scalar_eq_found_iff] at hfound
  by_cases hne : whole = []
  · subst hne
    rw [List.nil_append, scalar?_eq_none (by decide) rfl] at hfound
    cases hfound
  · have hdigits : IsDigits whole := ⟨hne, hw⟩
    have hpoint : ∀ c ∈ ('.' :: rest).head?, Numeral.isDigit c = false := by simp [Numeral.isDigit]
    have hdecimal : decimal? (whole ++ '.' :: rest) = none := by
      simp [decimal?, run?_append hne hw hpoint, literally?, run?_eq_none (stop.resolve_left hne)]
    rw [scalar?_number hdigits (by simp [Numeral.isDigit]), hdecimal, integer?_append hdigits hpoint,
      Option.none_or] at hfound
    split at hfound
    · cases hfound
      cases htail : whole.tail with
      | nil => exact ⟨'.', rfl, .inr rfl⟩
      | cons d digits =>
        have hmem : d ∈ whole.tail := by simp [htail]
        exact ⟨d, rfl, .inl (hw d (List.mem_of_mem_tail hmem))⟩
    · obtain ⟨n, -, heq⟩ := Option.map_eq_some_iff.mp hfound
      cases heq
      exact ⟨'.', rfl, .inr rfl⟩

theorem leavesPart_of_points {more : List Char} (hw : ∀ c ∈ whole, Numeral.isDigit c = true)
    (hp : ∀ c ∈ places, Numeral.isDigit c = true) :
    LeavesPart (scalar (whole ++ '.' :: (places ++ '.' :: more))) := by
  by_cases hne : whole ≠ [] ∧ places ≠ []
  · intro v r hfound
    have hread := scalar_of_decimal ⟨hne.1, hw⟩ ⟨hne.2, hp⟩
      (show ∀ c ∈ ('.' :: more).head?, Numeral.isDigit c = false by simp [Numeral.isDigit])
    rw [List.append_assoc, List.cons_append, hfound] at hread
    cases hread
    exact ⟨'.', rfl, .inr rfl⟩
  · refine leavesPart_of_point hw ?_
    by_cases hwhole : whole = []
    · exact .inl hwhole
    · have hplaces : places = [] := by
        by_contra hplaces
        exact hne ⟨hwhole, hplaces⟩
      subst hplaces
      exact .inr (by simp [Numeral.isDigit])

/-- Where a digit or a point is left behind a value, neither a list nor a block goes on. -/
theorem not_finishes {depth : Nat} {c : Char} {r : List Char}
    (hc : Numeral.isDigit c = true ∨ c = '.') : ¬ Finishes depth (c :: r) := by
  have hname : isNameChar c = true := by
    rcases hc with hdigit | rfl
    · exact isNameChar_of_isDigit hdigit
    · rfl
  have hskip : skip (c :: r) = c :: r := skip_solid (solid_of_isNameChar hname) r
  have hne {d : Char} (hd : isNameChar d = false) : c ≠ d := ne_of_isNameChar hname hd
  have hcloses {r₁ : List Char} (h : Closes depth (c :: r) r₁) : r₁ = c :: r := by
    generalize hcs : c :: r = cs at h
    induction h with
    | none => rfl
    | list _ hitems hbracket ih =>
      subst hcs
      obtain rfl := ih rfl
      obtain ⟨-, rfl⟩ | ⟨next, hcomma, -⟩ := furtherItems_eq_ok hitems
      · rw [hskip] at hbracket
        cases hbracket
        exact absurd rfl (hne rfl)
      · rw [hskip] at hcomma
        cases hcomma
        exact absurd rfl (hne rfl)
  rintro ⟨lists, behind, hbrace, -⟩
  obtain rfl := hcloses lists
  have habsent : condition (c :: r) = .absent := by
    simp [condition, hskip, name?, isNameStart_eq_false hc]
  rw [many_of_absent habsent] at behind
  cases behind
  rw [hskip] at hbrace
  cases hbrace
  exact hne rfl rfl

/-! ## Both signs -/

/-- A number in the stricter way is read with both signs or with none. -/
theorem scalar_signs (harranged : Arrangement t) (hends : EndsNumber after)
    (hbits : '.' ∉ t → Numeral.value t < 2 ^ 63) :
    (IsBare t ∧ ∃ v v', scalar (t ++ after) = .found v after ∧
      scalar ('-' :: (t ++ after)) = .found v' after ∧ v.Opposite v') ∨
    (LeavesPart (scalar (t ++ after)) ∧
      (IsBare t → ∀ v r, scalar ('-' :: (t ++ after)) ≠ .found v r)) := by
  cases harranged with
  | digits h =>
    have hbits := hbits (Numeral.point_notMem h.2)
    by_cases hzero : t.head? = some '0' → t = ['0']
    · obtain ⟨m, hm, hread⟩ := scalar_of_digits h hends hbits hzero
      obtain ⟨n, hn, hread'⟩ := scalar_minus_of_digits h hends hbits
      have hopposite : Value.Opposite (.int m) (.int n) := .int (by rw [hm, hn])
      exact .inl ⟨(isBare_digits_iff h.2).mpr hzero, .int m, .int n, hread, hread', hopposite⟩
    · refine .inr ⟨?_, fun hbare => absurd ((isBare_digits_iff h.2).mp hbare) hzero⟩
      obtain ⟨hhead, hne⟩ := Classical.not_imp.mp hzero
      exact leavesPart_of_zero h hends hhead hne
  | @decimal whole places hw hp =>
    have hdigit (c : Char) (hc : c ∈ after.head?) := (hends c hc).1.1
    by_cases hsides : whole ≠ [] ∧ places ≠ []
    · exact .inl ⟨(isBare_decimal_iff hw hp).mpr hsides, _, _,
        scalar_of_decimal ⟨hsides.1, hw⟩ ⟨hsides.2, hp⟩ hdigit,
        scalar_minus_of_decimal (.inl hsides.1) hw hp hends, Value.opposite_ofDecimal _ _⟩
    · refine .inr ⟨?_, fun hbare => absurd ((isBare_decimal_iff hw hp).mp hbare) hsides⟩
      rw [List.append_assoc, List.cons_append]
      refine leavesPart_of_point hw ?_
      by_cases hwhole : whole = []
      · exact .inl hwhole
      · obtain rfl : places = [] := by
          by_contra hplaces
          exact hsides ⟨hwhole, hplaces⟩
        exact .inr hdigit
  | further hw hp hm =>
    refine .inr ⟨?_, fun _ v r hfound => ?_⟩
    · rw [List.append_assoc, List.cons_append, List.append_assoc, List.cons_append]
      exact leavesPart_of_points hw hp
    · rw [scalar_minus_of_points hw hp hm hends] at hfound
      cases hfound

/-! ## Whole texts -/

section Place

variable {c : Char} {cs : List Char} {p : Place} {text text' : String} {rest' : List Char}

/-- A minus, a digit or a point, which start no list and are not skipped. -/
def StartsNumber (c : Char) : Prop := c = '-' ∨ Numeral.isDigit c = true ∨ c = '.'

theorem literal_of_startsNumber (hc : StartsNumber c) (hskip : skip rest = c :: cs) :
    literal rest = scalar (c :: cs) ∧ ']' ∉ (skip rest).head? := by
  have hne : c ≠ '[' ∧ c ≠ ']' := by
    rcases hc with rfl | hdigit | rfl
    · decide
    · exact ⟨Numeral.ne_of_isDigit hdigit rfl, Numeral.ne_of_isDigit hdigit rfl⟩
    · decide
  refine ⟨literal_of_scalar hskip hne.1, ?_⟩
  rw [hskip, List.head?_cons, Option.mem_some_iff]
  exact hne.2

theorem Place.Reaches.exists_scalar (hreach : p.Reaches text.toList rest) (hc : StartsNumber c)
    (hskip : skip rest = c :: cs) {bs : List (String × Policy)} (hbs : parse text = .ok bs) :
    ∃ v r, scalar (c :: cs) = .found v r ∧ Finishes p.path.length r ∧ p.value? bs = some v := by
  obtain ⟨hliteral, hstop⟩ := literal_of_startsNumber hc hskip
  rw [← hliteral]
  exact hreach.exists_found hstop (parse_eq_ok_iff.mp hbs)

theorem Place.Reaches.exists_parse (hreach : p.Reaches text.toList rest) (hc : StartsNumber c)
    (hskip : skip rest = c :: cs) {v : Value} (hv : scalar (c :: cs) = .found v after)
    (hfinishes : Finishes p.path.length after) : ∃ bs, parse text = .ok bs := by
  obtain ⟨bs, hbs⟩ :=
    hreach.exists_blocks ((literal_of_startsNumber hc hskip).1.trans hv) hfinishes
  exact ⟨bs, parse_eq_ok_iff.mpr hbs⟩

/-- Of two texts with a number at a place, in the second one behind a minus, the first one is
accepted if and only if the second one is and the number is written in the stricter way, and then
the values there are opposite. -/
theorem parse_minus (hreach : p.Reaches text.toList rest) (hreach' : p.Reaches text'.toList rest')
    (hskip : skip rest = t ++ after) (hskip' : skip rest' = '-' :: (t ++ after)) (hne : t ≠ [])
    (hnumber : ∀ c ∈ t, Numeral.isDigit c = true ∨ c = '.') (hends : EndsNumber after)
    (hbits : '.' ∉ t → Numeral.value t < 2 ^ 63) :
    ((∃ bs, parse text = .ok bs) ↔ (∃ bs, parse text' = .ok bs) ∧ IsBare t) ∧
    ∀ bs bs', parse text = .ok bs → parse text' = .ok bs' →
      ∃ v v', p.value? bs = some v ∧ p.value? bs' = some v' ∧ v.Opposite v' := by
  have hsigns := scalar_signs (arrangement hne hnumber) hends hbits
  obtain ⟨c, cs, rfl⟩ := List.exists_cons_of_ne_nil hne
  simp only [List.cons_append] at hsigns hskip hskip'
  have hc : StartsNumber c := .inr (hnumber c (by simp))
  have hminus : StartsNumber '-' := .inl rfl
  rcases hsigns with ⟨hbare, v, v', hv, hv', hopposite⟩ | ⟨hpart, hstrict⟩
  · have hread {bs : List (String × Policy)} (hbs : parse text = .ok bs) :
        Finishes p.path.length after ∧ p.value? bs = some v := by
      obtain ⟨w, r, hw, hfinishes, hvalue⟩ := hreach.exists_scalar hc hskip hbs
      rw [hv] at hw
      cases hw
      exact ⟨hfinishes, hvalue⟩
    have hread' {bs : List (String × Policy)} (hbs : parse text' = .ok bs) :
        Finishes p.path.length after ∧ p.value? bs = some v' := by
      obtain ⟨w, r, hw, hfinishes, hvalue⟩ := hreach'.exists_scalar hminus hskip' hbs
      rw [hv'] at hw
      cases hw
      exact ⟨hfinishes, hvalue⟩
    refine ⟨⟨?_, ?_⟩, fun bs bs' hbs hbs' => ?_⟩
    · rintro ⟨bs, hbs⟩
      exact ⟨hreach'.exists_parse hminus hskip' hv' (hread hbs).1, hbare⟩
    · rintro ⟨⟨bs', hbs'⟩, -⟩
      exact hreach.exists_parse hc hskip hv (hread' hbs').1
    · exact ⟨v, v', (hread hbs).2, (hread' hbs').2, hopposite⟩
  · have hrejected {bs : List (String × Policy)} (hbs : parse text = .ok bs) : False := by
      obtain ⟨w, r, hw, hfinishes, -⟩ := hreach.exists_scalar hc hskip hbs
      obtain ⟨d, hd, hdigit⟩ := hpart w r hw
      obtain ⟨ds, rfl⟩ := List.head?_eq_some_iff.mp hd
      exact not_finishes hdigit hfinishes
    refine ⟨⟨?_, ?_⟩, fun bs bs' hbs => (hrejected hbs).elim⟩
    · rintro ⟨bs, hbs⟩
      exact (hrejected hbs).elim
    · rintro ⟨⟨bs', hbs'⟩, hbare⟩
      obtain ⟨w, r, hw, -, -⟩ := hreach'.exists_scalar hminus hskip' hbs'
      exact absurd hw (hstrict hbare w r)

end Place

/-- The value of a first condition, whatever effect is named and whatever is written there. -/
theorem reaches_value {word front cs : List Char} (behind : List Char)
    (heffect : name? (skip (' ' :: behind)) = some (word, front))
    (hbrace : skip front = '\x7b' :: ("x==".toList ++ cs)) :
    Place.Reaches ⟨0, 0, []⟩ ("policy r ".toList ++ behind) cs := by
  have hword : literally? "policy".toList (skip ("policy r ".toList ++ behind)) =
      some (" r ".toList ++ behind) := by cbv
  have hresource : name? (skip (" r ".toList ++ behind)) = some (['r'], ' ' :: behind) := by cbv
  have hcolumn : name? (skip ("x==".toList ++ cs)) = some (['x'], "==".toList ++ cs) := by cbv
  have hoperator : operator? (skip ("==".toList ++ cs)) = some ("==".toList, cs) := by cbv
  exact .mk .nil hword hresource heffect hbrace .nil hcolumn hoperator .here

theorem endsNumber_brace : EndsNumber ['\x7d'] := by simp [EndsNumber, Numeral.isDigit]

/-- Behind a minus a double is read where its block and the text end. -/
theorem Place.Reaches.exists_parse_minus {i j : Nat} {text : String} (whole places : List Char)
    (hreach : Place.Reaches ⟨i, j, []⟩ text.toList ('-' :: (whole ++ '.' :: places ++ ['\x7d'])))
    (hne : whole ≠ [] ∨ places ≠ []) (hw : ∀ c ∈ whole, Numeral.isDigit c = true)
    (hp : ∀ c ∈ places, Numeral.isDigit c = true) : ∃ bs, parse text = .ok bs := by
  have hfinishes : Finishes 0 ['\x7d'] := .mk .none (by cbv) (by cbv) (by cbv)
  exact hreach.exists_parse (.inl rfl) (skip_solid (by decide) _)
    (scalar_minus_of_decimal hne hw hp endsNumber_brace) hfinishes

/-- A half with both signs. -/
theorem parse_minus_half :
    ∃ bs bs' v v', parse "policy r deny\x7bx==0.5\x7d" = .ok bs ∧
      parse "policy r deny\x7bx==-0.5\x7d" = .ok bs' ∧
      Place.value? ⟨0, 0, []⟩ bs = some v ∧ Place.value? ⟨0, 0, []⟩ bs' = some v' ∧
      v.Opposite v' := by
  have hreach : Place.Reaches ⟨0, 0, []⟩ "policy r deny\x7bx==0.5\x7d".toList "0.5\x7d".toList :=
    reaches_value "deny\x7bx==0.5\x7d".toList (by cbv) (by cbv)
  have hreach' : Place.Reaches ⟨0, 0, []⟩ "policy r deny\x7bx==-0.5\x7d".toList
      "-0.5\x7d".toList :=
    reaches_value "deny\x7bx==-0.5\x7d".toList (by cbv) (by cbv)
  have hnumber : ∀ c ∈ "0.5".toList, Numeral.isDigit c = true ∨ c = '.' := by
    simp [Numeral.isDigit]
  have hbare : IsBare "0.5".toList := ⟨by decide, by decide, by decide⟩
  obtain ⟨hiff, hopposite⟩ := parse_minus hreach hreach' (by cbv) (by cbv) (by decide) hnumber
    endsNumber_brace (by decide)
  obtain ⟨bs', hbs'⟩ := hreach'.exists_parse_minus ['0'] ['5'] (.inl (by simp))
    (by simp [Numeral.isDigit]) (by simp [Numeral.isDigit])
  obtain ⟨bs, hbs⟩ := hiff.mpr ⟨⟨bs', hbs'⟩, hbare⟩
  obtain ⟨v, v', hv, hv', h⟩ := hopposite bs bs' hbs hbs'
  exact ⟨bs, bs', v, v', hbs, hbs', hv, hv', h⟩

/-- Only behind a minus the digits in front of the point or behind it may be missing, and an integer
may start with zeros. -/
theorem parse_minus_only :
    (∃ bs, parse "policy r allow \x7bx==-.5\x7d" = .ok bs) ∧
    (∃ e, parse "policy r allow \x7bx==.5\x7d" = .error e) ∧
    (∃ bs, parse "policy r allow \x7bx==-5.\x7d" = .ok bs) ∧
    (∃ e, parse "policy r allow \x7bx==5.\x7d" = .error e) ∧
    (∃ bs, parse "policy r allow \x7bx==-007\x7d" = .ok bs) ∧
    ∃ e, parse "policy r allow \x7bx==007\x7d" = .error e := by
  have hpoint : Place.Reaches ⟨0, 0, []⟩ "policy r allow \x7bx==-.5\x7d".toList "-.5\x7d".toList :=
    reaches_value "allow \x7bx==-.5\x7d".toList (by cbv) (by cbv)
  have hpoint' : Place.Reaches ⟨0, 0, []⟩ "policy r allow \x7bx==-5.\x7d".toList
      "-5.\x7d".toList :=
    reaches_value "allow \x7bx==-5.\x7d".toList (by cbv) (by cbv)
  have hfront : ∃ bs, parse "policy r allow \x7bx==-.5\x7d" = .ok bs :=
    hpoint.exists_parse_minus [] ['5'] (.inr (by simp)) (by simp) (by simp [Numeral.isDigit])
  have hback : ∃ bs, parse "policy r allow \x7bx==-5.\x7d" = .ok bs :=
    hpoint'.exists_parse_minus ['5'] [] (.inl (by simp)) (by simp [Numeral.isDigit]) (by simp)
  exact ⟨hfront, ⟨_, by cbv⟩, hback, ⟨_, by cbv⟩, ⟨_, by cbv⟩, ⟨_, by cbv⟩⟩

end PolicyText

end RowPolicy
