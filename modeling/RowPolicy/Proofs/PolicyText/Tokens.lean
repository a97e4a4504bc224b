import RowPolicy.Proofs.PolicyText.Spelling

/-!
# Reading back tokens

Behind a gap stands the next token of a layout. A name, an operator, a quoted text or digits in
front of a text are read whole, provided that the text behind does not go on with characters of the
kind.
-/
namespace RowPolicy.PolicyText

/-! ## Gaps -/

theorem lineEnd?_append {body : List Char} (h : ∀ c ∈ body, c ≠ '\r' ∧ c ≠ '\n')
    (cs : List Char) : lineEnd? (body ++ '\n' :: cs) = some ('\n' :: cs) := by
  induction body with
  | nil => rfl
  | cons c body ih =>
    obtain ⟨⟨hreturn, hfeed⟩, hbody⟩ := List.forall_mem_cons.mp h
    rw [List.cons_append, lineEnd?, ih hbody]
    · exact hfeed
    · exact fun _ hc _ => hreturn hc
    · exact hreturn

theorem skip_space {c : Char} (h : isSpace c = true) (cs : List Char) :
    skip (c :: cs) = skip cs := by
  rw [skip, if_pos h]

theorem skip_comment {body : List Char} (h : ∀ c ∈ body, c ≠ '\r' ∧ c ≠ '\n') (cs : List Char) :
    skip ('#' :: (body ++ '\n' :: cs)) = skip cs := by
  rw [skip, if_neg (by decide), if_pos rfl]
  split
  · next line hline =>
    rw [lineEnd?_append h, Option.some_inj] at hline
    rw [← hline, skip_space (by decide)]
  · next hline =>
    rw [lineEnd?_append h] at hline
    cases hline

theorem skip_gap {gap : List Char} (h : Gap gap) (cs : List Char) : skip (gap ++ cs) = skip cs := by
  induction h with
  | nil => rfl
  | space hc _ ih => rw [List.cons_append, skip_space hc, ih]
  | comment hbody _ ih =>
    rw [List.cons_append, List.append_assoc, List.cons_append, skip_comment hbody, ih]

/-- A character that no gap starts with. -/
def Solid (c : Char) : Prop := isSpace c = false ∧ c ≠ '#'

instance (c : Char) : Decidable (Solid c) := inferInstanceAs (Decidable (_ ∧ _))

theorem skip_solid {c : Char} (h : Solid c) (cs : List Char) : skip (c :: cs) = c :: cs := by
  rw [skip, if_neg (by simp [h.1]), if_neg h.2]

theorem Gap.not_solid_of_head {gap : List Char} (h : Gap gap) {c : Char} (hc : c ∈ gap.head?) :
    ¬ Solid c := by
  cases h with
  | nil => cases hc
  | space hspace =>
    cases hc
    exact fun hsolid => by simp [hsolid.1] at hspace
  | comment =>
    cases hc
    exact fun hsolid => hsolid.2 rfl

namespace Layout

variable {token text : List Char} {tokens : List (List Char)}

theorem skip_nil (h : Layout [] text) : skip text = [] := by
  cases h with
  | done hgap =>
    have hskip := skip_gap hgap []
    rwa [List.append_nil, skip] at hskip

/-- The first token stands behind a gap, and the others stand behind it. -/
theorem skip_cons (h : Layout (token :: tokens) text) (hsolid : ∃ c ∈ token.head?, Solid c) :
    ∃ rest, skip text = token ++ rest ∧ Apart token rest ∧ Layout tokens rest ∧
      rest.length < text.length := by
  cases h with
  | @token gap _ rest _ hgap apart next =>
    obtain ⟨c, hc, hsolid⟩ := hsolid
    obtain ⟨cs, rfl⟩ := List.head?_eq_some_iff.mp hc
    refine ⟨rest, ?_, apart, next, ?_⟩
    · rw [skip_gap hgap, List.cons_append, skip_solid hsolid]
    · simp only [List.length_append, List.length_cons]
      omega

/-- A text starts with a solid character only where its first token does. -/
theorem head?_eq (h : Layout tokens text) {c : Char} (hsolid : Solid c) (hc : c ∈ text.head?) :
    ∃ token ∈ tokens.head?, token = [] ∨ c ∈ token.head? := by
  cases h with
  | done hgap => exact absurd hsolid (hgap.not_solid_of_head hc)
  | @token gap token rest tokens hgap _ _ =>
    refine ⟨token, rfl, ?_⟩
    cases gap with
    | cons d gap =>
      cases hc
      exact absurd hsolid (hgap.not_solid_of_head rfl)
    | nil =>
      cases token with
      | nil => exact .inl rfl
      | cons d token => exact .inr hc

end Layout

/-! ## Names and operators -/

theorem run?_append {kind : Char → Bool} {token rest : List Char} (hne : token ≠ [])
    (h : ∀ c ∈ token, kind c = true) (stop : ∀ c ∈ rest.head?, kind c = false) :
    run? kind (token ++ rest) = some (token, rest) := by
  obtain ⟨htake, hdrop⟩ := span_append h stop
  simp [run?, htake, hdrop, hne]

theorem isNameChar_of_isWordChar {c : Char} (h : isWordChar c = true) : isNameChar c = true := by
  grind [isNameChar]

theorem isNameChar_of_isNameStart {c : Char} (h : isNameStart c = true) : isNameChar c = true := by
  grind [isNameChar, isWordChar]

theorem isNameChar_of_isDigit {c : Char} (h : Numeral.isDigit c = true) : isNameChar c = true := by
  grind [isNameChar, isWordChar]

/-- The characters of a name that it does not start with. -/
theorem isNameStart_eq_false {c : Char} (h : Numeral.isDigit c = true ∨ c = '.') :
    isNameStart c = false := by
  rcases h with hdigit | rfl
  · have hrange := Numeral.toNat_of_isDigit hdigit
    have hunderscore : c ≠ '_' := by
      rintro rfl
      exact absurd hrange (by decide)
    simp [isNameStart, Char.le_def, UInt32.le_iff_toNat_le, hunderscore]
    omega
  · rfl

theorem ne_of_isNameChar {c d : Char} (hc : isNameChar c = true) (hd : isNameChar d = false) :
    c ≠ d := by
  grind

theorem solid_of_isNameChar {c : Char} (h : isNameChar c = true) : Solid c := by
  refine ⟨?_, ne_of_isNameChar h (by decide)⟩
  rw [Bool.eq_false_iff]
  intro hspace
  obtain (((rfl | rfl) | rfl) | rfl) | rfl := by simpa [isSpace] using hspace
  all_goals exact absurd h (by decide)

theorem isWordChar_eq_false {c : Char} (h : isNameChar c = false) : isWordChar c = false := by
  grind [isNameChar]

theorem isDigit_eq_false {c : Char} (h : isNameChar c = false) : Numeral.isDigit c = false := by
  grind [isNameChar, isWordChar]

namespace Apart

variable {token rest : List Char}

theorem of_append {front : List Char} (apart : Apart (front ++ token) rest) : Apart token rest := by
  rintro ⟨hlast, hhead⟩
  refine apart ⟨?_, hhead⟩
  obtain ⟨c, hc, hname⟩ := (Option.any_eq_true _ _).mp hlast
  rw [List.getLast?_append, hc]
  exact hname

/-- Behind a token of name characters none follows. -/
theorem stop (apart : Apart token rest) (hne : token ≠ [])
    (h : ∀ c ∈ token, isNameChar c = true) : ∀ c ∈ rest.head?, isNameChar c = false := by
  intro c hc
  obtain ⟨d, hd⟩ := Option.isSome_iff_exists.mp (List.getLast?_isSome.mpr hne)
  rw [Bool.eq_false_iff]
  intro hname
  refine apart ⟨?_, ?_⟩
  · rw [hd]
    exact h d (List.mem_of_getLast? hd)
  · rw [hc]
    exact hname

end Apart

theorem IsName.ne_nil {token : List Char} (h : IsName token) : token ≠ [] := by
  obtain ⟨c, cs, rfl, -, -⟩ := h
  exact List.cons_ne_nil c cs

theorem IsName.isNameChar {token : List Char} (h : IsName token) :
    ∀ c ∈ token, isNameChar c = true := by
  obtain ⟨c, cs, rfl, hc, hcs⟩ := h
  exact List.forall_mem_cons.mpr ⟨isNameChar_of_isNameStart hc, hcs⟩

theorem name?_append {token rest : List Char} (h : IsName token) (apart : Apart token rest) :
    name? (token ++ rest) = some (token, rest) := by
  have stop := apart.stop h.ne_nil h.isNameChar
  obtain ⟨c, cs, rfl, hc, hcs⟩ := h
  obtain ⟨htake, hdrop⟩ := span_append hcs stop
  simp [name?, hc, htake, hdrop]

theorem operator?_of_isWordChar {c : Char} (h : isWordChar c = true) (cs : List Char) :
    operator? (c :: cs) = run? isWordChar (c :: cs) := by
  unfold operator?
  split <;> first | rfl | (next heq => cases heq; exact absurd h (by decide))

/-- An operator is read whole, and a symbol is not taken for the beginning of a longer one. -/
theorem operator?_append {token : String} {rest : List Char} (h : IsOperator token)
    (apart : Apart token.toList rest) (hlonger : '=' ∉ rest.head?) :
    operator? (token.toList ++ rest) = some (token.toList, rest) := by
  rcases h with ⟨op, hop⟩ | ⟨hne, hword⟩
  · have hshort (c : Char) (hc : c = '>' ∨ c = '<') : operator? (c :: rest) = some ([c], rest) := by
      cases rest with
      | nil => rcases hc with rfl | rfl <;> rfl
      | cons d rest =>
        have hd : d ≠ '=' := fun hd => hlonger (by simp [hd])
        rcases hc with rfl | rfl <;> simp [operator?, hd]
    cases op with
    | gt => cases hop; exact hshort '>' (.inl rfl)
    | lt => cases hop; exact hshort '<' (.inr rfl)
    | _ => cases hop <;> rfl
  · have stop := apart.stop hne fun c hc => isNameChar_of_isWordChar (hword c hc)
    obtain ⟨c, cs, hcons⟩ := List.exists_cons_of_ne_nil hne
    have hc : isWordChar c = true := hword c (by simp [hcons])
    have hrun := run?_append hne hword fun d hd => isWordChar_eq_false (stop d hd)
    rw [hcons, List.cons_append] at hrun ⊢
    rw [operator?_of_isWordChar hc, hrun]

/-! ## Quoted texts and digits -/

theorem quoted?_append_part {c : Char} {part cs s rest : List Char} (h : Quoted c part)
    (hcs : quoted? cs = some (s, rest)) : quoted? (part ++ cs) = some (c :: s, rest) := by
  cases h with
  | plain hc =>
    rw [List.cons_append, List.nil_append, quoted?, hcs]
    · rfl
    · exact hc.1
    · exact fun hslash _ => hc.2 hslash
    · exact fun _ _ hslash _ => hc.2 hslash
  | _ => simp [quoted?, unescape, hcs]

theorem quoted?_append {s : List Char} {parts : List (List Char)} (h : List.Forall₂ Quoted s parts)
    (rest : List Char) : quoted? (parts.flatten ++ '"' :: rest) = some (s, rest) := by
  induction h with
  | nil => rfl
  | cons hc _ ih =>
    rw [List.flatten_cons, List.append_assoc]
    exact quoted?_append_part hc ih

theorem literally?_append (token rest : List Char) :
    literally? token (token ++ rest) = some rest := by
  induction token with
  | nil => rfl
  | cons c token ih => rw [List.cons_append, literally?, if_pos rfl, ih]

theorem digits?_append {field rest : List Char} {count n : Nat} (hlength : field.length = count)
    (hdigit : ∀ c ∈ field, Numeral.isDigit c = true) (hvalue : Numeral.value field = n) :
    digits? count (field ++ rest) = some (n, rest) := by
  subst hlength
  have hall : field.all Numeral.isDigit = true := List.all_eq_true.mpr hdigit
  simp [digits?, hall, hvalue]

theorem digits?_padded {count n : Nat} (h : (Nat.toDigits 10 n).length ≤ count)
    (rest : List Char) : digits? count (Numeral.padded count n ++ rest) = some (n, rest) :=
  digits?_append (Numeral.length_padded h) (fun _ => Numeral.isDigit_of_mem_padded)
    (Numeral.value_padded count n)

end RowPolicy.PolicyText
