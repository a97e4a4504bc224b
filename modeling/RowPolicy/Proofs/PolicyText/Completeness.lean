import RowPolicy.Proofs.PolicyText.Literals

/-!
# Every spelling reads back

A reader reads back what is written if it finds it in front of any further tokens, and leaves just
these. Conditions and blocks follow one another until none is left. The main statement is
`parse_eq_ok_of_spells`: a text that spells some blocks is read as these blocks.
-/
namespace RowPolicy.PolicyText

variable {more : List (List Char)} {text : List Char}

/-- A reader finds what is written in a layout, and leaves a layout of the further tokens. -/
def ReadsBack {α : Type} (read : List Char → Outcome α) (Writes : α → List (List Char) → Prop) :
    Prop :=
  ∀ {a tokens more text}, Writes a tokens → Dashless more → Layout (tokens ++ more) text →
    ∃ rest, read text = .found a rest ∧ Layout more rest ∧ rest.length < text.length

/-! ## Series -/

section Series

variable {α : Type} {read : List Char → Outcome α} {Writes : α → List (List Char) → Prop}

theorem dashless_flatten {as : List α} {tokens : List (List (List Char))}
    (h : List.Forall₂ Writes as tokens)
    (hhead : ∀ {a ts} more, Writes a ts → Dashless (ts ++ more)) (hmore : Dashless more) :
    Dashless (tokens.flatten ++ more) := by
  cases h with
  | nil => exact hmore
  | cons ha _ =>
    rw [List.flatten_cons, List.append_assoc]
    exact hhead _ ha

/-- A series is read one by one, up to tokens that the reader leaves alone. -/
theorem many_written (hread : ReadsBack read Writes)
    (hhead : ∀ {a ts} more, Writes a ts → Dashless (ts ++ more)) (hmore : Dashless more)
    (habsent : ∀ {text}, Layout more text → read text = .absent) {as : List α}
    {tokens : List (List (List Char))} (h : List.Forall₂ Writes as tokens)
    (layout : Layout (tokens.flatten ++ more) text) :
    ∃ rest, many read text = .ok (as, rest) ∧ Layout more rest ∧ rest.length ≤ text.length := by
  induction h generalizing text with
  | nil =>
    refine ⟨text, ?_, layout, Nat.le_refl _⟩
    rw [many, habsent layout]
  | @cons a ts as tokens ha has ih =>
    rw [List.flatten_cons, List.append_assoc] at layout
    obtain ⟨mid, hfound, layout, hlt⟩ := hread ha (dashless_flatten has hhead hmore) layout
    obtain ⟨rest, hmany, layout, hle⟩ := ih layout
    refine ⟨rest, ?_, layout, by omega⟩
    rw [many, hfound]
    simp [hlt, hmany]

end Series

/-! ## Conditions -/

theorem IsName.solid {token : List Char} (h : IsName token) : ∃ c ∈ token.head?, Solid c := by
  obtain ⟨c, cs, rfl, hc, -⟩ := h
  exact ⟨c, rfl, solid_of_isNameChar (isNameChar_of_isNameStart hc)⟩

theorem IsOperator.solid {token : String} (h : IsOperator token) :
    ∃ c ∈ token.toList.head?, Solid c := by
  rcases h with ⟨op, hop⟩ | ⟨hne, hword⟩
  · cases op <;> cases hop <;> exact ⟨_, rfl, by decide⟩
  · obtain ⟨c, cs, hcons⟩ := List.exists_cons_of_ne_nil hne
    have hc : isWordChar c = true := hword c (by simp [hcons])
    exact ⟨c, by simp [hcons], solid_of_isNameChar (isNameChar_of_isWordChar hc)⟩

/-- No symbol for a comparison goes on with the beginning of a literal. -/
theorem Written.equals_notMem {v : Value} {tokens : List (List Char)} (h : Written v tokens)
    (layout : Layout (tokens ++ more) text) : '=' ∉ text.head? := by
  intro hmem
  obtain ⟨token, htoken, hhead⟩ := layout.head?_eq (by decide) hmem
  cases h with
  | scalar hs =>
    obtain ⟨c, cs, rfl, -, -, hne⟩ := hs.solid
    cases htoken
    simp at hhead
    exact hne hhead
  | _ =>
    cases htoken
    simp at hhead

theorem WrittenCondition.dashless {c : Condition} {tokens : List (List Char)}
    (more : List (List Char)) (h : WrittenCondition c tokens) : Dashless (tokens ++ more) := by
  obtain ⟨column, -, -⟩ := h
  rintro _ ⟨⟩
  refine ⟨column.ne_nil, fun hmem => ?_⟩
  have hname := column.isNameChar _ (List.mem_of_head? hmem)
  exact absurd hname (by decide)

theorem condition_written : ReadsBack condition WrittenCondition := by
  intro c tokens more text h hdash layout
  obtain ⟨column, predicate, value⟩ := h
  obtain ⟨afterColumn, hcolumn, apart, layout, hlt⟩ := layout.skip_cons column.solid
  obtain ⟨afterPredicate, hpredicate, apart', layout, hlt'⟩ := layout.skip_cons predicate.solid
  have hname := name?_append column apart
  have hoperator := operator?_append predicate apart' (value.equals_notMem layout)
  obtain ⟨rest, hliteral, layout, hlt''⟩ := literal_written value hdash layout
  refine ⟨rest, ?_, layout, by omega⟩
  simp [condition, hcolumn, hname, hpredicate, hoperator, hliteral]

/-- A block ends where no condition starts. -/
theorem condition_close (layout : Layout (['\x7d'] :: more) text) : condition text = .absent := by
  obtain ⟨rest, hclose, -, -, -⟩ := layout.skip_cons ⟨'\x7d', rfl, by decide⟩
  rw [condition, hclose]
  rfl

/-! ## Blocks -/

theorem ofToken_eq {effect : Effect} {token : String}
    (resolved : effect = .deny ↔ token = "deny") : Effect.ofToken token = effect := by
  by_cases h : token = "deny"
  · rw [Effect.ofToken, if_pos h, resolved.mpr h]
  · rw [Effect.ofToken, if_neg h]
    cases effect with
    | allow => rfl
    | deny => exact absurd (resolved.mp rfl) h

theorem body_written (resource : String) {effect : String} {p : Policy}
    {tokens : List (List (List Char))} (resolved : p.effect = .deny ↔ effect = "deny")
    (h : List.Forall₂ WrittenCondition p.conditions tokens)
    (layout : Layout (['\x7b'] :: (tokens.flatten ++ ['\x7d'] :: more)) text) :
    ∃ rest, body resource.toList effect.toList text = .found (resource, p) rest ∧
      Layout more rest ∧ rest.length < text.length := by
  obtain ⟨inner, hopen, -, layout, hlt⟩ := layout.skip_cons ⟨'\x7b', rfl, by decide⟩
  have hclosing : Dashless (['\x7d'] :: more) := by simp [Dashless]
  obtain ⟨close, hmany, layout, hle⟩ := many_written condition_written
    WrittenCondition.dashless hclosing condition_close h layout
  obtain ⟨rest, hclose, -, layout, hlt'⟩ := layout.skip_cons ⟨'\x7d', rfl, by decide⟩
  refine ⟨rest, ?_, layout, by omega⟩
  simp [body, hopen, hmany, hclose, ofToken_eq resolved]

theorem block_written : ReadsBack block WrittenBlock := by
  intro b tokens more text h hdash layout
  cases h with
  | @mk resource effect p tokens resourceName effectName resolved conditions =>
    simp only [List.cons_append, List.append_assoc, List.nil_append] at layout
    obtain ⟨r₁, hpolicy, -, layout, hlt₁⟩ := layout.skip_cons ⟨'p', rfl, by decide⟩
    obtain ⟨r₂, hresource, apart, layout, hlt₂⟩ := layout.skip_cons resourceName.solid
    obtain ⟨r₃, heffect, apart', layout, hlt₃⟩ := layout.skip_cons effectName.solid
    have hname := name?_append resourceName apart
    have hname' := name?_append effectName apart'
    obtain ⟨rest, hbody, layout, hlt₄⟩ := body_written resource resolved conditions layout
    refine ⟨rest, ?_, layout, by omega⟩
    rw [block, hpolicy, literally?_append]
    simp only [hresource, hname, heffect, hname', hbody]

theorem WrittenBlock.dashless {b : String × Policy} {tokens : List (List Char)}
    (more : List (List Char)) (h : WrittenBlock b tokens) : Dashless (tokens ++ more) := by
  obtain ⟨-, -, -, -⟩ := h
  rintro _ ⟨⟩
  decide

theorem block_end (layout : Layout [] text) : block text = .absent := by
  rw [block, layout.skip_nil]
  rfl

/-! ## Whole texts -/

theorem blocks_written {bs : List (String × Policy)} {tokens : List (List (List Char))}
    (written : List.Forall₂ WrittenBlock bs tokens) (layout : Layout tokens.flatten text) :
    blocks text = .ok bs := by
  rw [← List.append_nil tokens.flatten] at layout
  have hend : Dashless [] := by simp [Dashless]
  obtain ⟨rest, hmany, layout, -⟩ :=
    many_written block_written WrittenBlock.dashless hend block_end written layout
  rw [blocks, hmany]
  simp only [layout.skip_nil]

/-- Whatever spells some blocks reads as these blocks. -/
theorem parse_eq_ok_of_spells {text : String} {bs : List (String × Policy)} (h : Spells text bs) :
    parse text = .ok bs := by
  obtain ⟨tokens, written, layout⟩ := h
  rw [parse, blocks_written written layout]

/-- A comment may touch a brace and hold one. The list has a list, a leap second and a quote. -/
theorem parse_eq_ok_of_spells_nested :
    let text := "policy users deny\x7b#\x7d\n\tx.at in[[2021-12-31T23:59:60],\"\\\"\" ,-0.50]\x7d"
    let day : Date := ⟨2021, 12, 31, by decide, by decide, by decide⟩
    let leap : DateTime := ⟨day, 23, 59, 59, 1000000000, by decide, by decide, by decide, by decide⟩
    let items := [.list [.dateTime leap], .text "\"", .float ⟨0xbfe0000000000000⟩]
    let bs : List (String × Policy) := [("users", ⟨.deny, [⟨"x.at", "in", .list items⟩]⟩)]
    Spells text bs ∧ parse text = .ok bs := by
  intro text day leap items bs
  have hleap : Scalar (.dateTime leap) "2021-12-31T23:59:60".toList := by
    have htoken : day.text ++ 'T' :: leap.clockText = "2021-12-31T23:59:60".toList := by
      decide +kernel
    rw [← htoken]
    exact .dateTime (by decide) (by decide)
  have hparts : List.Forall₂ Quoted "\"".toList [['\\', '"']] := .cons .quote .nil
  have hquote : Scalar (.text "\"") ['"', '\\', '"', '"'] := .text hparts
  have hwhole : IsDigits ['0'] := ⟨by simp, List.all_eq_true.mp rfl⟩
  have hplaces : IsDigits ['5', '0'] := ⟨by simp, List.all_eq_true.mp rfl⟩
  have hfloat : Scalar (.float ⟨0xbfe0000000000000⟩) "-0.50".toList :=
    .float true hwhole hplaces (Binary64.rounds_ofDecimal true 50 (-2))
  have hlist : Written (.list items) [['['], ['['], "2021-12-31T23:59:60".toList, [']'], [','],
      ['"', '\\', '"', '"'], [','], "-0.50".toList, [']']] :=
    .list (.list (.scalar hleap) .nil) (.cons (.scalar hquote) (.cons (.scalar hfloat) .nil))
  have hin : IsOperator "in" := .inr ⟨by simp, List.all_eq_true.mp rfl⟩
  have hcolumn : IsName "x.at".toList := ⟨'x', ".at".toList, rfl, rfl, List.all_eq_true.mp rfl⟩
  have husers : IsName "users".toList := ⟨'u', "sers".toList, rfl, rfl, List.all_eq_true.mp rfl⟩
  have hdeny : IsName "deny".toList := ⟨'d', "eny".toList, rfl, rfl, List.all_eq_true.mp rfl⟩
  have hcondition : WrittenCondition ⟨"x.at", "in", .list items⟩ _ :=
    .mk hcolumn hin hlist
  have hblock : WrittenBlock ("users", ⟨.deny, [⟨"x.at", "in", .list items⟩]⟩) _ :=
    .mk husers hdeny (iff_of_true rfl rfl) (.cons hcondition .nil)
  have blank : Gap [' '] := .space rfl .nil
  have comment : Gap ('#' :: (['\x7d'] ++ '\n' :: ['\t'])) := .comment (by simp) (.space rfl .nil)
  have hspells : Spells text bs := by
    refine ⟨_, .cons hblock .nil, Eq.mp (congrArg (Layout _) ?_) <|
      .token .nil ?_ <| .token blank ?_ <| .token blank ?_ <| .token .nil ?_ <|
      .token comment ?_ <| .token blank ?_ <| .token .nil ?_ <| .token .nil ?_ <|
      .token .nil ?_ <| .token .nil ?_ <| .token .nil ?_ <| .token .nil ?_ <|
      .token blank ?_ <| .token .nil ?_ <| .token .nil ?_ <| .token .nil ?_ <| .done .nil⟩
    all_goals decide
  exact ⟨hspells, parse_eq_ok_of_spells hspells⟩

end RowPolicy.PolicyText
