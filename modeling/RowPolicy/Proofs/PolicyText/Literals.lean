import RowPolicy.Proofs.PolicyText.Scalars

/-!
# Reading back literals

The tokens of a literal, laid out in front of further tokens, read as its value, and what is left is
a layout of those further tokens. Lists nest to any depth, so the statement for literals and the one
for the items behind a comma go by one induction on how the tokens were written.
-/
namespace RowPolicy.PolicyText

/-! ## One step of a reader -/

theorem scalar_eq_found_iff {cs rest : List Char} {v : Value} :
    scalar cs = .found v rest ↔ scalar? cs = some (some v, rest) := by
  rw [scalar]
  rcases scalar? cs with _ | ⟨_ | w, r⟩ <;> simp

theorem literal_eq (text : List Char) :
    literal text =
      match skip text with
      | [] => .absent
      | c :: rest =>
        if c = '[' then
          match items rest with
          | .error f => .fault (f.inside .value)
          | .ok (values, rest) => closeList values rest
        else scalar (c :: rest) := by
  rw [literal, show skip text = (skipped text).1 from rfl]
  rcases skipped text with ⟨_ | ⟨c, rest⟩, hle⟩ <;> rfl

theorem furtherItems_eq (text : List Char) :
    furtherItems text =
      match skip text with
      | ',' :: next =>
        match literal next with
        | .absent => .ok ([], text)
        | .fault f => .error f
        | .found v rest =>
          if rest.length < text.length then
            match furtherItems rest with
            | .ok (vs, rest) => .ok (v :: vs, rest)
            | .error f => .error f
          else .ok ([v], rest)
      | _ => .ok ([], text) := by
  rw [furtherItems, show skip text = (skipped text).1 from rfl]
  rcases skipped text with ⟨_ | ⟨c, next⟩, hle⟩
  · rfl
  · by_cases hc : c = ','
    · subst hc
      rfl
    · simp [hc]

theorem literal_of_scalar {text cs : List Char} {c : Char} (h : skip text = c :: cs)
    (hc : c ≠ '[') : literal text = scalar (c :: cs) := by
  rw [literal_eq, h]
  exact if_neg hc

theorem literal_of_items {text inner close rest : List Char} {vs : List Value}
    (hopen : skip text = '[' :: inner) (hitems : items inner = .ok (vs, close))
    (hclose : skip close = ']' :: rest) : literal text = .found (.list vs) rest := by
  simp [literal_eq, hopen, hitems, closeList, hclose]

/-- In front of the closing bracket there are no items. -/
theorem items_of_close {text rest : List Char} (h : skip text = ']' :: rest) :
    items text = .ok ([], text) := by
  rw [items, literal_of_scalar h (by decide), scalar, scalar?_bracket]

theorem items_of_literal {text mid rest : List Char} {v : Value} {vs : List Value}
    (hv : literal text = .found v mid) (hlt : mid.length < text.length)
    (hvs : furtherItems mid = .ok (vs, rest)) : items text = .ok (v :: vs, rest) := by
  rw [items, hv]
  simp [hlt, hvs]

theorem furtherItems_of_close {text rest : List Char} (h : skip text = ']' :: rest) :
    furtherItems text = .ok ([], text) := by
  rw [furtherItems_eq, h]
  rfl

theorem furtherItems_of_literal {text next mid rest : List Char} {v : Value} {vs : List Value}
    (hcomma : skip text = ',' :: next) (hv : literal next = .found v mid)
    (hlt : mid.length < text.length) (hvs : furtherItems mid = .ok (vs, rest)) :
    furtherItems text = .ok (v :: vs, rest) := by
  simp [furtherItems_eq text, hcomma, hv, hlt, hvs]

/-! ## Literals in a layout -/

/-- The next token does not run on from a number. -/
def Dashless (tokens : List (List Char)) : Prop :=
  ∀ token ∈ tokens.head?, token ≠ [] ∧ '-' ∉ token.head?

theorem Layout.dash_notMem {tokens : List (List Char)} {text : List Char} (h : Layout tokens text)
    (hdash : Dashless tokens) : '-' ∉ text.head? := by
  intro hmem
  obtain ⟨token, htoken, hnil | hhead⟩ := h.head?_eq (by decide) hmem
  · exact (hdash token htoken).1 hnil
  · exact (hdash token htoken).2 hhead

theorem Scalar.solid {v : Value} {token : List Char} (h : Scalar v token) :
    ∃ c cs, token = c :: cs ∧ Solid c ∧ c ≠ '[' ∧ c ≠ '=' := by
  obtain ⟨c, hc, hstart⟩ := h.head
  obtain ⟨cs, rfl⟩ := List.head?_eq_some_iff.mp hc
  refine ⟨c, cs, rfl, ?_⟩
  rcases hstart with rfl | rfl | rfl | rfl | hdigit
  · decide
  · decide
  · decide
  · decide
  · have hname := isNameChar_of_isDigit hdigit
    exact ⟨solid_of_isNameChar hname, ne_of_isNameChar hname (by decide),
      ne_of_isNameChar hname (by decide)⟩

theorem WrittenItems.dashless {vs : List Value} {further : List (List Char)}
    (h : WrittenItems vs further) (more : List (List Char)) :
    Dashless (further ++ [']'] :: more) := by
  cases h <;> simp [Dashless]

mutual

theorem literal_written {v : Value} {tokens : List (List Char)} (h : Written v tokens)
    {more : List (List Char)} {text : List Char} (hdash : Dashless more)
    (layout : Layout (tokens ++ more) text) :
    ∃ rest, literal text = .found v rest ∧ Layout more rest ∧ rest.length < text.length := by
  match h with
  | .scalar hs =>
    obtain ⟨c, cs, rfl, hsolid, hbracket, -⟩ := hs.solid
    obtain ⟨rest, hskip, apart, layout, hlt⟩ := layout.skip_cons ⟨c, rfl, hsolid⟩
    have hread := scalar?_append hs apart (layout.dash_notMem hdash)
    rw [List.cons_append] at hskip hread
    refine ⟨rest, ?_, layout, hlt⟩
    rw [literal_of_scalar hskip hbracket, scalar, hread]
  | .nil =>
    obtain ⟨inner, hopen, -, layout, hlt⟩ := layout.skip_cons ⟨'[', rfl, by decide⟩
    obtain ⟨rest, hclose, -, layout, hlt'⟩ := layout.skip_cons ⟨']', rfl, by decide⟩
    exact ⟨rest, literal_of_items hopen (items_of_close hclose) hclose, layout, by omega⟩
  | .list first items =>
    obtain ⟨inner, hopen, -, layout, hlt⟩ := layout.skip_cons ⟨'[', rfl, by decide⟩
    obtain ⟨mid, hv, layout, hmid⟩ :=
      literal_written first (items.dashless more) (by simpa using layout)
    obtain ⟨close, hvs, layout, hle⟩ := furtherItems_written items layout
    obtain ⟨rest, hclose, -, layout, hlt'⟩ := layout.skip_cons ⟨']', rfl, by decide⟩
    have hread := literal_of_items hopen (items_of_literal hv hmid hvs) hclose
    exact ⟨rest, hread, layout, by omega⟩

theorem furtherItems_written {vs : List Value} {tokens : List (List Char)}
    (h : WrittenItems vs tokens) {more : List (List Char)} {text : List Char}
    (layout : Layout (tokens ++ [']'] :: more) text) :
    ∃ rest, furtherItems text = .ok (vs, rest) ∧ Layout ([']'] :: more) rest ∧
      rest.length ≤ text.length := by
  match h with
  | .nil =>
    obtain ⟨rest, hclose, -, -, -⟩ := layout.skip_cons ⟨']', rfl, by decide⟩
    exact ⟨text, furtherItems_of_close hclose, layout, Nat.le_refl _⟩
  | .cons item items =>
    obtain ⟨next, hcomma, -, layout, hlt⟩ := layout.skip_cons ⟨',', rfl, by decide⟩
    obtain ⟨mid, hv, layout, hmid⟩ :=
      literal_written item (items.dashless more) (by simpa using layout)
    obtain ⟨rest, hvs, layout, hle⟩ := furtherItems_written items layout
    have hread := furtherItems_of_literal hcomma hv (by omega) hvs
    exact ⟨rest, hread, layout, by omega⟩

end

end RowPolicy.PolicyText
