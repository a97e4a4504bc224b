import RowPolicy.PolicyText.Block
import RowPolicy.Proofs.PolicyText.Literals

/-!
# Reading goes forward

What is found takes some text, so a reader leaves a shorter rest of the text that it was given, and
a fault lies within the text that it was found in. Series take no more than there is.
-/
namespace RowPolicy.PolicyText

variable {α : Type} {cs ds mid rest : List Char}

/-! ## Rests -/

/-- A rest of a text that something was taken from. -/
structure Shorter (rest cs : List Char) : Prop where
  suffix : rest <:+ cs
  lt : rest.length < cs.length

namespace Shorter

theorem of_append {token : List Char} (hne : token ≠ []) (rest : List Char) :
    Shorter rest (token ++ rest) := by
  refine ⟨List.suffix_append token rest, ?_⟩
  have hpos := List.length_pos_of_ne_nil hne
  rw [List.length_append]
  omega

theorem cons (c : Char) (cs : List Char) : Shorter cs (c :: cs) :=
  of_append (List.cons_ne_nil c []) cs

theorem trans_suffix (h : Shorter rest mid) (hsuffix : mid <:+ cs) : Shorter rest cs :=
  ⟨h.suffix.trans hsuffix, h.lt.trans_le hsuffix.length_le⟩

theorem suffix_trans (hsuffix : rest <:+ mid) (h : Shorter mid cs) : Shorter rest cs :=
  ⟨hsuffix.trans h.suffix, hsuffix.length_le.trans_lt h.lt⟩

theorem trans (h : Shorter rest mid) (h' : Shorter mid cs) : Shorter rest cs :=
  h.trans_suffix h'.suffix

end Shorter

/-! ## Gaps -/

theorem lineEnd?_suffix (h : lineEnd? cs = some rest) : rest <:+ cs := by
  fun_induction lineEnd? cs with
  | case1 | case2 | case3 => cases h; exact List.suffix_rfl
  | case4 => cases h
  | case5 c cs _ _ _ ih => exact (ih h).trans (List.suffix_cons c cs)

theorem skip_suffix (cs : List Char) : skip cs <:+ cs := by
  fun_induction skip cs with
  | case1 | case4 | case5 => exact List.suffix_rfl
  | case2 c rest _ ih => exact ih.trans (List.suffix_cons c rest)
  | case3 rest line h _ ih =>
    exact (ih.trans (lineEnd?_suffix h)).trans (List.suffix_cons '#' rest)

/-- What stands behind the first character that is not skipped. -/
theorem shorter_of_skip {c : Char} (h : skip cs = c :: rest) : Shorter rest cs :=
  (Shorter.cons c rest).trans_suffix (h ▸ skip_suffix cs)

theorem length_lt_of_skip {c : Char} (h : skip cs = c :: rest) : rest.length < cs.length :=
  (shorter_of_skip h).lt

/-! ## Tokens -/

theorem shorter_of_run? {kind : Char → Bool} {run : List Char}
    (h : run? kind cs = some (run, rest)) : Shorter rest cs := by
  obtain ⟨hne, hfound⟩ := Option.ite_none_left_eq_some.mp h
  cases hfound
  have hrun : cs.takeWhile kind ≠ [] := by simpa using hne
  have hshorter := Shorter.of_append hrun (cs.dropWhile kind)
  rwa [List.takeWhile_append_dropWhile] at hshorter

theorem shorter_of_name? {name : List Char} (h : name? cs = some (name, rest)) :
    Shorter rest cs := by
  cases cs with
  | nil => cases h
  | cons c cs =>
    obtain ⟨-, hfound⟩ := Option.ite_none_right_eq_some.mp h
    cases hfound
    exact .suffix_trans (List.dropWhile_suffix _) (.cons c cs)

theorem literally?_eq_some_iff {token : List Char} :
    literally? token cs = some rest ↔ cs = token ++ rest := by
  refine ⟨fun h => ?_, fun h => h ▸ literally?_append token rest⟩
  induction token generalizing cs with
  | nil => exact Option.some.inj h
  | cons c token ih =>
    cases cs with
    | nil => cases h
    | cons d cs =>
      obtain ⟨rfl, hrest⟩ := Option.ite_none_right_eq_some.mp h
      rw [ih hrest, List.cons_append]

theorem shorter_of_literally? {token : List Char} (hne : token ≠ [])
    (h : literally? token cs = some rest) : Shorter rest cs := by
  rw [literally?_eq_some_iff.mp h]
  exact .of_append hne rest

theorem shorter_of_operator? {token : List Char} (h : operator? cs = some (token, rest)) :
    Shorter rest cs := by
  unfold operator? at h
  split at h
  case h_7 => exact shorter_of_run? h
  case h_1 | h_3 | h_5 | h_6 =>
    cases h
    exact .trans (.cons _ _) (.cons _ _)
  case h_2 | h_4 =>
    cases h
    exact .cons _ _

theorem shorter_of_quoted? {s : List Char} (h : quoted? cs = some (s, rest)) :
    Shorter rest cs := by
  fun_induction quoted? cs generalizing s with
  | case1 => cases h
  | case2 => cases h; exact .cons _ _
  | case3 => cases h
  | case4 c cs ih =>
    obtain ⟨⟨t, r⟩, hread, hfound⟩ := Option.map_eq_some_iff.mp h
    cases hfound
    exact ((ih hread).trans (.cons c cs)).trans (.cons _ _)
  | case5 c cs _ _ _ ih =>
    obtain ⟨⟨t, r⟩, hread, hfound⟩ := Option.map_eq_some_iff.mp h
    cases hfound
    exact (ih hread).trans (.cons c cs)

theorem shorter_of_digits? {count n : Nat} (hpos : 0 < count)
    (h : digits? count cs = some (n, rest)) : Shorter rest cs := by
  obtain ⟨field, rfl, hlength, -⟩ := digits?_eq_some h
  exact .of_append (List.ne_nil_of_length_pos (hlength ▸ hpos)) rest

/-! ## Scalars -/

theorem shorter_of_calendarDay? {day : Nat × Nat × Nat} (h : calendarDay? cs = some (day, rest)) :
    Shorter rest cs := by
  unfold calendarDay? at h
  obtain ⟨⟨year, r₁⟩, hyear, h⟩ := Option.bind_eq_some_iff.mp h
  obtain ⟨r₂, hdash, h⟩ := Option.bind_eq_some_iff.mp h
  obtain ⟨⟨month, r₃⟩, hmonth, h⟩ := Option.bind_eq_some_iff.mp h
  obtain ⟨r₄, hdash', h⟩ := Option.bind_eq_some_iff.mp h
  obtain ⟨⟨day, r₅⟩, hday, h⟩ := Option.bind_eq_some_iff.mp h
  cases h
  have hdash := shorter_of_literally? (by decide) hdash
  have hdash' := shorter_of_literally? (by decide) hdash'
  have hyear := shorter_of_digits? (by decide) hyear
  have hmonth := shorter_of_digits? (by decide) hmonth
  have hday := shorter_of_digits? (by decide) hday
  exact hday.trans (hdash'.trans (hmonth.trans (hdash.trans hyear)))

theorem shorter_of_clockTime? {clock : Nat × Nat × Nat} (h : clockTime? cs = some (clock, rest)) :
    Shorter rest cs := by
  unfold clockTime? at h
  obtain ⟨r₁, hmark, h⟩ := Option.bind_eq_some_iff.mp h
  obtain ⟨⟨hour, r₂⟩, hhour, h⟩ := Option.bind_eq_some_iff.mp h
  obtain ⟨r₃, hcolon, h⟩ := Option.bind_eq_some_iff.mp h
  obtain ⟨⟨minute, r₄⟩, hminute, h⟩ := Option.bind_eq_some_iff.mp h
  obtain ⟨r₅, hcolon', h⟩ := Option.bind_eq_some_iff.mp h
  obtain ⟨⟨second, r₆⟩, hsecond, h⟩ := Option.bind_eq_some_iff.mp h
  cases h
  have hmark := shorter_of_literally? (by decide) hmark
  have hcolon := shorter_of_literally? (by decide) hcolon
  have hcolon' := shorter_of_literally? (by decide) hcolon'
  have hhour := shorter_of_digits? (by decide) hhour
  have hminute := shorter_of_digits? (by decide) hminute
  have hsecond := shorter_of_digits? (by decide) hsecond
  exact hsecond.trans (hcolon'.trans (hminute.trans (hcolon.trans (hhour.trans hmark))))

variable {v : Option Value}

theorem shorter_of_time? (h : time? cs = some (v, rest)) : Shorter rest cs := by
  unfold time? at h
  split at h
  · cases h
  · next year month day r hday =>
    have hday := shorter_of_calendarDay? hday
    dsimp only at h
    split at h
    · cases h
      exact hday
    · next hour minute second r' hclock =>
      cases h
      exact (shorter_of_clockTime? hclock).trans hday

theorem shorter_of_negative? (h : negative? cs = some (v, rest)) : Shorter rest cs := by
  unfold negative? at h
  split at h
  · split at h
    · cases h
    · next body r hrun =>
      have hrun := shorter_of_run? hrun
      split at h
      all_goals
        cases h
        exact hrun.trans (.cons _ _)
  · cases h

theorem shorter_of_decimal? (h : decimal? cs = some (v, rest)) : Shorter rest cs := by
  unfold decimal? at h
  obtain ⟨⟨whole, r₁⟩, hwhole, h⟩ := Option.bind_eq_some_iff.mp h
  obtain ⟨r₂, hpoint, h⟩ := Option.bind_eq_some_iff.mp h
  obtain ⟨⟨places, r₃⟩, hplaces, h⟩ := Option.bind_eq_some_iff.mp h
  cases h
  have hpoint := shorter_of_literally? (by decide) hpoint
  exact (shorter_of_run? hplaces).trans (hpoint.trans (shorter_of_run? hwhole))

theorem shorter_of_counting? (h : counting? cs = some (v, rest)) : Shorter rest cs := by
  unfold counting? at h
  obtain ⟨⟨digits, r⟩, hdigits, h⟩ := Option.bind_eq_some_iff.mp h
  dsimp only at h
  split at h
  · cases h
  · obtain ⟨n, -, h⟩ := Option.bind_eq_some_iff.mp h
    cases h
    exact shorter_of_run? hdigits

theorem shorter_of_integer? (h : integer? cs = some (v, rest)) : Shorter rest cs := by
  unfold integer? at h
  split at h
  · cases h
    exact .cons _ _
  · exact (shorter_of_counting? h).trans (.cons _ _)
  · exact shorter_of_counting? h

theorem shorter_of_word {token : List Char} {b : Bool} (hne : token ≠ [])
    (h : (literally? token cs).map (fun rest => (some (Value.bool b), rest)) = some (v, rest)) :
    Shorter rest cs := by
  obtain ⟨r, hr, hfound⟩ := Option.map_eq_some_iff.mp h
  cases hfound
  exact shorter_of_literally? hne hr

theorem shorter_of_scalar? (h : scalar? cs = some (v, rest)) : Shorter rest cs := by
  unfold scalar? at h
  split at h
  · obtain ⟨⟨s, r⟩, hquoted, hfound⟩ := Option.map_eq_some_iff.mp h
    cases hfound
    exact (shorter_of_quoted? hquoted).trans (.cons _ _)
  · rcases Option.or_eq_some_iff.mp h with htrue | ⟨-, h⟩
    · exact shorter_of_word (by decide) htrue
    rcases Option.or_eq_some_iff.mp h with hfalse | ⟨-, h⟩
    · exact shorter_of_word (by decide) hfalse
    rcases Option.or_eq_some_iff.mp h with htime | ⟨-, h⟩
    · exact shorter_of_time? htime
    rcases Option.or_eq_some_iff.mp h with hnegative | ⟨-, h⟩
    · exact shorter_of_negative? hnegative
    rcases Option.or_eq_some_iff.mp h with hdecimal | ⟨-, hinteger⟩
    · exact shorter_of_decimal? hdecimal
    · exact shorter_of_integer? hinteger

/-! ## Outcomes -/

/-- What an outcome leaves of a text: less of it behind what was found, and no more of it where
reading gave up. -/
def Outcome.Within (cs : List Char) : Outcome α → Prop
  | .found _ rest => rest.length < cs.length
  | .absent => True
  | .fault f => f.rest.length ≤ cs.length

/-- What an outcome leaves is a rest of the text, and a shorter one behind what was found. -/
def Outcome.Forward (cs : List Char) : Outcome α → Prop
  | .found _ rest => Shorter rest cs
  | .absent => True
  | .fault f => f.rest <:+ cs

/-- The same for a series, which may take nothing. -/
def SeriesForward (cs : List Char) : Except Fault (List α × List Char) → Prop
  | .ok (_, rest) => rest <:+ cs
  | .error f => f.rest <:+ cs

namespace Outcome.Forward

variable {o : Outcome α}

theorem within (h : o.Forward cs) : o.Within cs := by
  cases o with
  | found a rest => exact Shorter.lt h
  | absent => trivial
  | fault f => exact List.IsSuffix.length_le h

theorem shorter {a : α} (h : o.Forward cs) (hfound : o = .found a rest) : Shorter rest cs := by
  rw [hfound] at h
  exact h

theorem suffix {f : Fault} (h : o.Forward cs) (hfault : o = .fault f) : f.rest <:+ cs := by
  rw [hfault] at h
  exact h

theorem mono (h : o.Forward cs) (hsuffix : cs <:+ ds) : o.Forward ds := by
  cases o with
  | found a rest => exact Shorter.trans_suffix h hsuffix
  | absent => trivial
  | fault f => exact List.IsSuffix.trans h hsuffix

end Outcome.Forward

theorem SeriesForward.mono {s : Except Fault (List α × List Char)} (h : SeriesForward cs s)
    (hsuffix : cs <:+ ds) : SeriesForward ds s := by
  cases s with
  | ok s => exact List.IsSuffix.trans h hsuffix
  | error f => exact List.IsSuffix.trans h hsuffix

/-- A series goes forward if its members do. -/
theorem many_forward {read : List Char → Outcome α} (hread : ∀ cs, (read cs).Forward cs)
    (cs : List Char) : SeriesForward cs (many read cs) := by
  fun_induction many read cs with
  | case1 => exact List.suffix_rfl
  | case2 cs f h => exact (hread cs).suffix h
  | case3 cs a rest h _ as rest' hmany ih | case4 cs a rest h _ f hmany ih =>
    rw [hmany] at ih
    exact ih.mono ((hread cs).shorter h).suffix
  | case5 cs a rest h => exact ((hread cs).shorter h).suffix

theorem scalar_forward (cs : List Char) : (scalar cs).Forward cs := by
  unfold scalar
  split
  · trivial
  · next v rest h => exact shorter_of_scalar? h
  · next rest h => exact (shorter_of_scalar? h).suffix

theorem closeList_forward (vs : List Value) (cs : List Char) : (closeList vs cs).Forward cs := by
  unfold closeList
  split
  · next rest h => exact shorter_of_skip h
  · exact skip_suffix cs

mutual

theorem literal_forward (cs : List Char) : (literal cs).Forward cs := by
  rw [literal_eq]
  split
  · trivial
  · next c rest h =>
    have hrest := shorter_of_skip h
    split
    · have hlt := hrest.lt
      have hitems := (items_forward rest).mono hrest.suffix
      split
      · next f hf =>
        rw [hf] at hitems
        exact hitems
      · next vs close hclose =>
        rw [hclose] at hitems
        exact (closeList_forward vs close).mono hitems
    · exact (scalar_forward (c :: rest)).mono (h ▸ skip_suffix cs)
termination_by (cs.length, 0)
decreasing_by exact Prod.Lex.left _ _ (by assumption)

theorem items_forward (cs : List Char) : SeriesForward cs (items cs) := by
  have hliteral := literal_forward cs
  rw [items]
  split
  · exact List.suffix_rfl
  · next f h => exact hliteral.suffix h
  · next v rest h =>
    have hrest := hliteral.shorter h
    have hlt := hrest.lt
    have hfurther := (furtherItems_forward rest).mono hrest.suffix
    rw [if_pos hlt]
    split
    · next vs rest' h' =>
      rw [h'] at hfurther
      exact hfurther
    · next f h' =>
      rw [h'] at hfurther
      exact hfurther
termination_by (cs.length, 1)
decreasing_by
  · exact Prod.Lex.right _ (by decide)
  · exact Prod.Lex.left _ _ (by assumption)

theorem furtherItems_forward (cs : List Char) : SeriesForward cs (furtherItems cs) := by
  rw [furtherItems_eq]
  split
  · next next h =>
    have hnext := shorter_of_skip h
    have hlt := hnext.lt
    have hliteral := (literal_forward next).mono hnext.suffix
    split
    · exact List.suffix_rfl
    · next f h' => exact hliteral.suffix h'
    · next v rest h' =>
      have hrest := hliteral.shorter h'
      have hlt' := hrest.lt
      have hfurther := (furtherItems_forward rest).mono hrest.suffix
      rw [if_pos hlt']
      split
      · next vs rest' h'' =>
        rw [h''] at hfurther
        exact hfurther
      · next f h'' =>
        rw [h''] at hfurther
        exact hfurther
  · exact List.suffix_rfl
termination_by (cs.length, 0)
decreasing_by
  · exact Prod.Lex.left _ _ (by assumption)
  · exact Prod.Lex.left _ _ (by assumption)

end

theorem literal_within (cs : List Char) : (literal cs).Within cs := (literal_forward cs).within

/-! ## Conditions and blocks -/

theorem condition_forward (cs : List Char) : (condition cs).Forward cs := by
  have hcs := skip_suffix cs
  unfold condition
  split
  · trivial
  · next column rest h =>
    have hcolumn := (shorter_of_name? h).trans_suffix hcs
    have hrest := (skip_suffix rest).trans hcolumn.suffix
    split
    · exact hrest
    · next token rest' h' =>
      have htoken := (shorter_of_operator? h').trans_suffix hrest
      have hliteral := (literal_forward rest').mono htoken.suffix
      split
      · exact (skip_suffix rest').trans htoken.suffix
      · next f hf => exact hliteral.suffix hf
      · next v rest'' hv => exact hliteral.shorter hv

theorem condition_within (cs : List Char) : (condition cs).Within cs :=
  (condition_forward cs).within

theorem body_forward (resource effect cs : List Char) : (body resource effect cs).Forward cs := by
  unfold body
  split
  · next inner h =>
    have hinner := shorter_of_skip h
    have hmany := (many_forward condition_forward inner).mono hinner.suffix
    split
    · next f hf =>
      rw [hf] at hmany
      exact hmany
    · next conditions rest hrest =>
      rw [hrest] at hmany
      split
      · next after hclose => exact (shorter_of_skip hclose).trans_suffix hmany
      · exact (skip_suffix rest).trans hmany
  · exact skip_suffix cs

theorem block_forward (cs : List Char) : (block cs).Forward cs := by
  have hcs := skip_suffix cs
  unfold block
  split
  · trivial
  · next r₁ hword =>
    have hword := (shorter_of_literally? (by decide) hword).trans_suffix hcs
    have hr₁ := (skip_suffix r₁).trans hword.suffix
    split
    · exact hr₁
    · next resource r₂ hresource =>
      have hresource := (shorter_of_name? hresource).trans_suffix hr₁
      have hr₂ := (skip_suffix r₂).trans hresource.suffix
      split
      · exact hr₂
      · next effect r₃ heffect =>
        have heffect := (shorter_of_name? heffect).trans_suffix hr₂
        exact (body_forward resource effect r₃).mono heffect.suffix

theorem block_within (cs : List Char) : (block cs).Within cs := (block_forward cs).within

/-- Reading gives up inside the text. -/
theorem suffix_of_blocks_eq_error {f : Fault} (h : blocks cs = .error f) : f.rest <:+ cs := by
  have hmany := many_forward block_forward cs
  unfold blocks at h
  split at h
  · next f' hf =>
    cases h
    rw [hf] at hmany
    exact hmany
  · next bs rest hrest =>
    rw [hrest] at hmany
    split at h
    · cases h
    · cases h
      exact (skip_suffix rest).trans hmany

theorem length_of_blocks_eq_error {f : Fault} (h : blocks cs = .error f) :
    f.rest.length ≤ cs.length :=
  (suffix_of_blocks_eq_error h).length_le

end RowPolicy.PolicyText
