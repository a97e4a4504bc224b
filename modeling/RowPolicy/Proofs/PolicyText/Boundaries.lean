import RowPolicy.Proofs.PolicyText.Signs

/-!
# Tokens that touch

Between two tokens there may be a gap, but none is needed: no reader looks at what stands behind a
word or a number that it found. So a truth word or an integer may touch the name of the next column,
and the word that starts a block may touch the name of the resource, and what touches is read as if
a blank parted it.

The main statement is `parse_touching`: both texts are accepted or none is, and they hold the same.
-/
namespace RowPolicy.PolicyText

variable {cs ds rest : List Char}

/-! ## Names behind other tokens -/

section Name

variable {name more : List Char}

theorem skip_name (h : IsName name) (more : List Char) : skip (name ++ more) = name ++ more := by
  obtain ⟨c, cs, rfl, hc, -⟩ := h
  exact skip_solid (solid_of_isNameChar (isNameChar_of_isNameStart hc)) _

/-- A name takes all characters of a name behind it. -/
theorem name?_append_more (h : IsName name) (more : List Char) :
    name? (name ++ more) =
      some (name ++ more.takeWhile isNameChar, more.dropWhile isNameChar) := by
  obtain ⟨c, cs, rfl, hc, hcs⟩ := h
  simp [name?, hc, List.takeWhile_append_of_pos hcs, List.dropWhile_append_of_pos hcs]

theorem name?_skip_name (h : IsName name) (more : List Char) :
    name? (skip (name ++ more)) =
      some (name ++ more.takeWhile isNameChar, more.dropWhile isNameChar) := by
  rw [skip_name h, name?_append_more h]

theorem endsNumber_name (h : IsName name) (more : List Char) : EndsNumber (name ++ more) := by
  obtain ⟨c, cs, rfl, hc, -⟩ := h
  rintro _ ⟨⟩
  have hne {d : Char} (hd : isNameStart d = false) : c ≠ d := by grind
  refine ⟨⟨?_, hne rfl⟩, hne rfl⟩
  rw [Bool.eq_false_iff]
  intro hdigit
  rw [isNameStart_eq_false (.inl hdigit)] at hc
  cases hc

end Name

/-! ## Series -/

/-- What a series comes to depends on its first member and on what is left behind it. -/
theorem many_congr {α : Type} {read : List Char → Outcome α} (hwithin : ∀ cs, (read cs).Within cs)
    (h : read cs = read ds) (hne : read ds ≠ .absent) : many read cs = many read ds := by
  cases hd : read ds with
  | absent => exact absurd hd hne
  | fault f => rw [many_of_fault hd, many_of_fault (h.trans hd)]
  | found a rest =>
    rw [many_of_found hd ((hwithin ds).lt_of_found hd),
      many_of_found (h.trans hd) ((hwithin cs).lt_of_found (h.trans hd))]

theorem column_of_condition {column r : List Char} {c : Condition}
    (hname : name? (skip cs) = some (column, r)) (h : condition cs = .found c rest) :
    c.column = String.ofList column := by
  simp only [condition, hname] at h
  split at h
  · cases h
  · split at h <;> cases h
    rfl

theorem resource_of_block {resource r₁ r₂ : List Char} {b : String × Policy}
    (word : literally? "policy".toList (skip cs) = some r₁)
    (hname : name? (skip r₁) = some (resource, r₂)) (h : block cs = .found b rest) :
    b.1 = String.ofList resource := by
  simp only [block, word, hname] at h
  split at h
  · cases h
  · unfold body at h
    split at h
    · split at h
      · cases h
      · split at h <;> cases h
        rfl
    · cases h

/-! ## Literals in front of names -/

section Literal

variable {plain name tail more : List Char}

/-- A truth word, or digits behind a sign or none. -/
inductive IsPlain : List Char → Prop where
  | isTrue : IsPlain "true".toList
  | isFalse : IsPlain "false".toList
  | digits {ds : List Char} (h : IsDigits ds) : IsPlain ds
  | plus {ds : List Char} (h : IsDigits ds) : IsPlain ('+' :: ds)
  | minus {ds : List Char} (h : IsDigits ds) : IsPlain ('-' :: ds)

theorem IsPlain.exists_cons (h : IsPlain plain) :
    ∃ c cs, plain = c :: cs ∧ Solid c ∧ c ≠ '[' := by
  cases h with
  | isTrue | isFalse => exact ⟨_, _, rfl, by decide, by decide⟩
  | digits h =>
    obtain ⟨c, cs, rfl⟩ := List.exists_cons_of_ne_nil h.1
    have hdigit : Numeral.isDigit c = true := h.2 c (by simp)
    exact ⟨c, cs, rfl, solid_of_isNameChar (isNameChar_of_isDigit hdigit),
      Numeral.ne_of_isDigit hdigit rfl⟩
  | plus | minus => exact ⟨_, _, rfl, by decide, by decide⟩

theorem IsPlain.literal_eq (h : IsPlain plain) (tail : List Char) :
    literal (plain ++ tail) = scalar (plain ++ tail) ∧
      literal (' ' :: (plain ++ tail)) = scalar (plain ++ tail) := by
  obtain ⟨c, cs, rfl, hsolid, hbracket⟩ := h.exists_cons
  have hskip : skip (c :: (cs ++ tail)) = c :: (cs ++ tail) := skip_solid hsolid _
  exact ⟨literal_of_scalar hskip hbracket,
    literal_of_scalar ((skip_space rfl _).trans hskip) hbracket⟩

theorem scalar?_plus (cs : List Char) : scalar? ('+' :: cs) = counting? cs := by
  have htime := time?_of_calendarDay?_eq_none (calendarDay?_of_isDigit_eq_false (c := '+') rfl cs)
  rw [scalar?_cons (by decide) (by decide) (by decide), htime]
  simp [negative?, decimal?, run?, Numeral.isDigit, integer?]

/-- Each literal is read whole with one value, or never whole, whatever name stands behind it. -/
def ReadsAlike (plain : List Char) : Prop :=
  (∃ v, ∀ tail, EndsNumber tail → scalar (plain ++ tail) = .found v tail) ∨
    ∀ tail, EndsNumber tail → LeavesPart (scalar (plain ++ tail))

theorem readsAlike_of_map {o : Option (Option Value)}
    (h : ∀ tail, EndsNumber tail → scalar? (plain ++ tail) = o.map fun v => (v, tail)) :
    ReadsAlike plain := by
  rcases o with _ | ⟨_ | v⟩
  · refine .inr fun tail hends v r hfound => ?_
    rw [scalar_eq_found_iff, h tail hends] at hfound
    cases hfound
  · refine .inr fun tail hends v r hfound => ?_
    rw [scalar_eq_found_iff, h tail hends] at hfound
    cases hfound
  · refine .inl ⟨v, fun tail hends => ?_⟩
    rw [scalar_eq_found_iff, h tail hends]
    rfl

theorem IsPlain.readsAlike (h : IsPlain plain) : ReadsAlike plain := by
  cases h with
  | isTrue => exact .inl ⟨.bool true, fun _ _ => rfl⟩
  | isFalse => exact .inl ⟨.bool false, fun _ _ => rfl⟩
  | digits h =>
    by_cases hhead : plain.head? = some '0'
    · by_cases hne : plain = ['0']
      · subst hne
        refine .inl ⟨.int 0, fun tail hends => ?_⟩
        rw [scalar_eq_found_iff, scalar?_of_digits h hends]
        rfl
      · exact .inr fun tail hends => leavesPart_of_zero h hends hhead hne
    · refine readsAlike_of_map (o := (Numeral.fit64? (Numeral.value plain)).map (some ∘ .int))
        fun tail hends => ?_
      rw [scalar?_of_digits h hends, if_neg hhead, Option.map_map]
      rfl
  | @plus ds h =>
    refine readsAlike_of_map (o := if ds.head? = some '0' then none
      else (Numeral.fit64? (Numeral.value ds)).map (some ∘ .int)) fun tail hends => ?_
    rw [List.cons_append, scalar?_plus, counting?_append h fun c hc => (hends c hc).1.1]
    split
    · rfl
    · rw [Option.map_map]
      rfl
  | @minus ds h =>
    refine readsAlike_of_map (o := some ((Numeral.fit64? (-(Numeral.value ds))).map .int))
      fun tail hends => ?_
    rw [List.cons_append, scalar?_minus (negative?_integer h fun c hc => (hends c hc).1)]
    rfl

end Literal

/-! ## Whole texts -/

variable {plain name more : List Char}

/-- The text in front of the first value. -/
def beforeValue : String := "policy r allow \x7b x == "

theorem blocks_beforeValue_iff {bs : List (String × Policy)} :
    blocks (beforeValue.toList ++ cs) = .ok bs ↔
      ∃ v mid conditions close r later, literal (' ' :: cs) = .found v mid ∧
        many condition mid = .ok (conditions, close) ∧ skip close = '\x7d' :: r ∧
        blocks r = .ok later ∧ bs = ("r", ⟨.allow, ⟨"x", "==", v⟩ :: conditions⟩) :: later := by
  have hword : literally? "policy".toList (skip (beforeValue.toList ++ cs)) =
      some (" r allow \x7b x == ".toList ++ cs) := by cbv
  have hresource : name? (skip (" r allow \x7b x == ".toList ++ cs)) =
      some (['r'], " allow \x7b x == ".toList ++ cs) := by cbv
  have heffect : name? (skip (" allow \x7b x == ".toList ++ cs)) =
      some ("allow".toList, " \x7b x == ".toList ++ cs) := by cbv
  have hbrace : skip (" \x7b x == ".toList ++ cs) = '\x7b' :: (" x == ".toList ++ cs) := by cbv
  have hcolumn : name? (skip (" x == ".toList ++ cs)) = some (['x'], " == ".toList ++ cs) := by cbv
  have hoperator : operator? (skip (" == ".toList ++ cs)) = some ("==".toList, ' ' :: cs) := by cbv
  exact blocks_eq_ok_iff_of_passes .nil hword hresource heffect hbrace .nil hcolumn hoperator

/-- Behind a plain literal the name of a column is read, with a gap in front of it or without. -/
theorem blocks_plain_iff (hplain : IsPlain plain) (hname : IsName name) {tail : List Char}
    (hends : EndsNumber tail) (hskip : skip tail = name ++ more) {bs : List (String × Policy)} :
    blocks (beforeValue.toList ++ (plain ++ tail)) = .ok bs ↔
      ∃ v conditions close r later, literal plain = .found v [] ∧
        many condition (name ++ more) = .ok (conditions, close) ∧ skip close = '\x7d' :: r ∧
        blocks r = .ok later ∧ bs = ("r", ⟨.allow, ⟨"x", "==", v⟩ :: conditions⟩) :: later := by
  have hnothing : EndsNumber [] := by simp [EndsNumber]
  have hliteral := (hplain.literal_eq tail).2
  have halone := (hplain.literal_eq []).1
  rw [List.append_nil] at halone
  have hskip' : skip tail = skip (name ++ more) := hskip.trans (skip_name hname more).symm
  have hcondition := condition_ne_absent (name?_skip_name hname more)
  have hmany := many_congr condition_within (condition_congr hskip') hcondition
  rw [blocks_beforeValue_iff, hliteral, halone]
  rcases hplain.readsAlike with ⟨v, hv⟩ | hpart
  · have hv' := hv [] hnothing
    rw [List.append_nil] at hv'
    rw [hv tail hends, hv']
    constructor
    · rintro ⟨w, mid, conditions, close, r, later, ⟨⟩, hbehind, hclose, hlater, hbs⟩
      exact ⟨v, conditions, close, r, later, rfl, hmany ▸ hbehind, hclose, hlater, hbs⟩
    · rintro ⟨w, conditions, close, r, later, ⟨⟩, hbehind, hclose, hlater, hbs⟩
      exact ⟨v, tail, conditions, close, r, later, rfl, hmany.trans hbehind, hclose, hlater, hbs⟩
  · constructor
    · rintro ⟨w, mid, conditions, close, r, later, hw, hbehind, hclose, hlater, -⟩
      obtain ⟨c, hc, hdigit⟩ := hpart tail hends w mid hw
      obtain ⟨ds, rfl⟩ := List.head?_eq_some_iff.mp hc
      have hfinishes : Finishes 0 (c :: ds) := .mk .none hbehind hclose hlater
      exact absurd hfinishes (not_finishes hdigit)
    · rintro ⟨w, conditions, close, r, later, hw, -, -, -, -⟩
      have hnone := hpart [] hnothing w []
      rw [List.append_nil] at hnone
      obtain ⟨c, hc, -⟩ := hnone hw
      cases hc

theorem literally?_policy (cs : List Char) :
    literally? "policy".toList (skip ("policy".toList ++ cs)) = some cs := by
  rw [show skip ("policy".toList ++ cs) = "policy".toList ++ cs from skip_solid (by decide) _,
    literally?_append]

/-- What stands behind the word that starts a block is read with a gap in front of it or without. -/
theorem blocks_policy (cs : List Char) :
    blocks ("policy".toList ++ cs) = blocks ("policy".toList ++ ' ' :: cs) := by
  have hblock : block ("policy".toList ++ cs) = block ("policy".toList ++ ' ' :: cs) := by
    rw [block, block, literally?_policy, literally?_policy]
    simp only [skip_space (show isSpace ' ' = true from rfl)]
  have hne := block_ne_absent (literally?_policy (' ' :: cs))
  rw [blocks, blocks, many_congr block_within hblock hne]

theorem exists_column (hname : IsName name) {conditions : List Condition} {close : List Char}
    (h : many condition (name ++ more) = .ok (conditions, close)) :
    ∃ c further, conditions = c :: further ∧
      c.column = String.ofList (name ++ more.takeWhile isNameChar) := by
  have hcolumn := name?_skip_name hname more
  obtain ⟨c, mid, further, hc, -, hconditions⟩ :=
    (many_eq_ok_iff_of_ne_absent (condition_within _) (condition_ne_absent hcolumn)).mp h
  exact ⟨c, further, hconditions, column_of_condition hcolumn hc⟩

theorem exists_resource (hname : IsName name) {bs : List (String × Policy)}
    (h : blocks ("policy".toList ++ (name ++ more)) = .ok bs) :
    ∃ b later, bs = b :: later ∧ b.1 = String.ofList (name ++ more.takeWhile isNameChar) := by
  have hword := literally?_policy (name ++ more)
  have hresource := name?_skip_name hname more
  obtain ⟨r, hmany, -⟩ := blocks_eq_ok_iff.mp h
  obtain ⟨b, mid, later, hb, -, hbs⟩ :=
    (many_eq_ok_iff_of_ne_absent (block_within _) (block_ne_absent hword)).mp hmany
  exact ⟨b, later, hbs, resource_of_block hword hresource hb⟩

/-- A plain literal may touch the column of a further condition, and the word that starts a block
the name of its resource: the text is read as if a blank stood there, and the name goes on as far as
its characters do. -/
theorem parse_touching {plain name : String} (hplain : IsPlain plain.toList)
    (hname : IsName name.toList) (more : String) :
    let taken := name ++ String.ofList (more.toList.takeWhile isNameChar)
    (∀ bs, parse (beforeValue ++ plain ++ name ++ more) = .ok bs ↔
      parse (beforeValue ++ plain ++ " " ++ name ++ more) = .ok bs) ∧
    (∀ bs, parse (beforeValue ++ plain ++ name ++ more) = .ok bs →
      ∃ v c conditions later, literal plain.toList = .found v [] ∧ c.column = taken ∧
        bs = ("r", ⟨.allow, ⟨"x", "==", v⟩ :: c :: conditions⟩) :: later) ∧
    (∀ bs, parse ("policy" ++ name ++ more) = .ok bs ↔
      parse ("policy" ++ " " ++ name ++ more) = .ok bs) ∧
    ∀ bs, parse ("policy" ++ name ++ more) = .ok bs → ∃ p later, bs = (taken, p) :: later := by
  intro taken
  have htaken : String.ofList (name.toList ++ more.toList.takeWhile isNameChar) = taken := by
    simp [taken, String.ofList_append]
  have hends := endsNumber_name hname more.toList
  have hskip := skip_name hname more.toList
  have hends' : EndsNumber (' ' :: (name.toList ++ more.toList)) := by
    rintro _ ⟨⟩
    decide
  have hskip' : skip (' ' :: (name.toList ++ more.toList)) = name.toList ++ more.toList :=
    (skip_space rfl _).trans hskip
  have hvalue : (beforeValue ++ plain ++ name ++ more).toList =
      beforeValue.toList ++ (plain.toList ++ (name.toList ++ more.toList)) := by
    simp
  have hvalue' : (beforeValue ++ plain ++ " " ++ name ++ more).toList =
      beforeValue.toList ++ (plain.toList ++ ' ' :: (name.toList ++ more.toList)) := by
    simp
  have hword : ("policy" ++ name ++ more).toList =
      "policy".toList ++ (name.toList ++ more.toList) := by
    simp
  have hword' : ("policy" ++ " " ++ name ++ more).toList =
      "policy".toList ++ ' ' :: (name.toList ++ more.toList) := by
    simp
  refine ⟨fun bs => ?_, fun bs hbs => ?_, fun bs => ?_, fun bs hbs => ?_⟩
  · rw [parse_eq_ok_iff, parse_eq_ok_iff, hvalue, hvalue', blocks_plain_iff hplain hname hends hskip,
      blocks_plain_iff hplain hname hends' hskip']
  · rw [parse_eq_ok_iff, hvalue, blocks_plain_iff hplain hname hends hskip] at hbs
    obtain ⟨v, conditions, close, r, later, hv, hmany, -, -, rfl⟩ := hbs
    obtain ⟨c, further, rfl, hcolumn⟩ := exists_column hname hmany
    exact ⟨v, c, further, later, hv, hcolumn.trans htaken, rfl⟩
  · rw [parse_eq_ok_iff, parse_eq_ok_iff, hword, hword', blocks_policy]
  · rw [parse_eq_ok_iff, hword] at hbs
    obtain ⟨⟨resource, p⟩, later, rfl, hresource⟩ := exists_resource hname hbs
    obtain rfl : resource = taken := hresource.trans htaken
    exact ⟨p, later, rfl⟩

/-- An integer with a plus in front of a column, and a resource that starts with an underscore. -/
theorem parse_touching_plus :
    parse (beforeValue ++ "+7" ++ "y" ++ "!=8\x7d") =
      .ok [("r", ⟨.allow, [⟨"x", "==", .int 7⟩, ⟨"y", "!=", .int 8⟩]⟩)] ∧
    parse ("policy" ++ "_r" ++ " deny\x7b\x7d") = .ok [("_r", ⟨.deny, []⟩)] := by
  have hdigits : IsDigits ['7'] := ⟨by simp, by simp [Numeral.isDigit]⟩
  have hplain : IsPlain "+7".toList := .plus hdigits
  have hcolumn : IsName "y".toList := ⟨'y', [], rfl, rfl, by simp⟩
  have hresource : IsName "_r".toList := ⟨'_', ['r'], rfl, rfl, by simp; rfl⟩
  constructor
  · exact ((parse_touching hplain hcolumn "!=8\x7d").1 _).mpr (by cbv)
  · exact ((parse_touching hplain hresource " deny\x7b\x7d").2.2.1 _).mpr (by cbv)

/-- A misspelt literal is a literal and a column, and a misspelt word a word and a resource. -/
theorem parse_trueish :
    parse "policy r allow \x7b x == trueish==1\x7d" =
      .ok [("r", ⟨.allow, [⟨"x", "==", .bool true⟩, ⟨"ish", "==", .int 1⟩]⟩)] ∧
    parse "policyusers allow \x7b\x7d" = .ok [("users", ⟨.allow, []⟩)] :=
  ⟨by cbv, by cbv⟩

end RowPolicy.PolicyText
