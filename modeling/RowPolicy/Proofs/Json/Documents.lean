import RowPolicy.Proofs.Json.Brackets
import RowPolicy.Proofs.Json.Numbers

/-!
# Values of any kind

A value that is used is read as some tree, which is a text only where the value writes that text:
`readsAs_used`. A value that is not used is passed over, however deeply it is nested:
`readsAs_unused`. Both follow the nesting of brackets.
-/
namespace RowPolicy.Json

theorem Ends.endsNumeral {rest : List Char} (h : Ends rest) : EndsNumeral rest := by
  intro c hc
  rcases h c hc with hspace | rfl | rfl | rfl
  · simp only [isSpace, Bool.or_eq_true, beq_iff_eq] at hspace
    rcases hspace with ((rfl | rfl) | rfl) | rfl <;> decide
  all_goals decide

/-! ## First characters -/

/-- A character that starts a value without parts. -/
def StartsAtom (c : Char) : Prop :=
  isSpace c = false ∧ c ≠ '[' ∧ c ≠ ']' ∧ c ≠ '\x7b' ∧ c ≠ '\x7d'

instance (c : Char) : Decidable (StartsAtom c) :=
  inferInstanceAs (Decidable (_ ∧ _))

/-- A character that starts a numeral and nothing else. -/
structure StartsNumeral (c : Char) : Prop where
  startsAtom : StartsAtom c
  isNumeral : c = '-' ∨ Numeral.isDigit c = true
  notLetter : c ≠ '"' ∧ c ≠ 'n' ∧ c ≠ 't' ∧ c ≠ 'f'

theorem startsNumeral {c : Char} (h : c = '-' ∨ Numeral.isDigit c = true) : StartsNumeral c := by
  have hne {d : Char} (hd : ¬ (d = '-' ∨ Numeral.isDigit d = true)) : c ≠ d := by
    rintro rfl
    exact hd h
  have hspace : isSpace c = false := by
    simp [isSpace, hne (d := ' ') (by decide), hne (d := '\n') (by decide),
      hne (d := '\t') (by decide), hne (d := '\r') (by decide)]
  refine ⟨⟨hspace, ?_, ?_, ?_, ?_⟩, h, ?_, ?_, ?_, ?_⟩ <;> exact hne (by decide)

theorem IsNumeral.exists_cons {cs : List Char} (h : IsNumeral cs) :
    ∃ c tail, cs = c :: tail ∧ StartsNumeral c := by
  obtain @⟨negative, whole, fraction, exponent, hwhole, -, -⟩ := h
  obtain ⟨c, tail, rfl, hc⟩ := hwhole.1.exists_cons
  cases negative with
  | true => exact ⟨'-', _, rfl, startsNumeral (.inl rfl)⟩
  | false => exact ⟨c, _, rfl, startsNumeral (.inr hc)⟩

/-! ## Values that are used -/

section Used

variable {depth : Nat} {cs : List Char}

theorem readsAs_of_atom {c : Char} {tail : List Char} {d : Document} (hc : StartsAtom c)
    (h : ∀ rest, Ends rest → Document.atom c (tail ++ rest) = .ok (d, rest)) :
    ReadsAs (Document.read depth) d (c :: tail) := by
  obtain ⟨hspace, hbracket, hbracket', hbrace, hbrace'⟩ := hc
  refine ⟨⟨c, tail, rfl, hspace, hbracket', hbrace'⟩, fun hgap hends => ?_⟩
  rw [Document.read.eq_def, List.cons_append, skipSpace_append hgap hspace]
  simp only [hbracket, hbrace, if_false]
  exact h _ hends

theorem readsAs_null : ReadsAs (Document.read depth) .null "null".toList :=
  readsAs_of_atom (by decide) fun _ _ => rfl

theorem readsAs_bool (b : Bool) :
    ReadsAs (Document.read depth) (.bool b) (if b then "true" else "false").toList := by
  cases b <;> exact readsAs_of_atom (by decide) fun _ _ => rfl

theorem readsAs_text {s : String} (h : WrittenString s cs) :
    ReadsAs (Document.read depth) (.string s) cs := by
  have hstring : ReadsBehind '"' string s cs := string_append h
  refine (hstring.map Document.string).readsAs (by decide) fun hskip => ?_
  rw [Document.read.eq_def, hskip]
  rfl

theorem readsAs_number {n : Number} {c : Char} {tail : List Char} (hc : StartsNumeral c)
    (h : ∀ rest, Ends rest → number (c :: tail ++ rest) = .ok (n, rest)) :
    ReadsAs (Document.read depth) (Document.ofNumber n) (c :: tail) := by
  refine readsAs_of_atom hc.startsAtom fun rest hends => ?_
  obtain ⟨hquote, hn, ht, hf⟩ := hc.notLetter
  have hread : number (c :: (tail ++ rest)) = .ok (n, rest) := h rest hends
  simp only [Document.atom, hquote, hn, ht, hf, hc.isNumeral, hread, if_false, if_true]
  rfl

theorem readsAs_int (n : Int64) :
    ReadsAs (Document.read depth) (.int n.toInt) (Numeral.decimal n.toInt).toList := by
  obtain ⟨c, tail, hcons, hc⟩ := Numeral.exists_cons_decimal n.toInt
  rw [hcons]
  refine readsAs_number (n := .int n.toInt) (startsNumeral hc) fun rest hends => ?_
  rw [← hcons]
  exact number_decimal n hends.endsNumeral

theorem readsAs_numeral (h : IsNumeralInRange cs) :
    ∃ n, ReadsAs (Document.read depth) (Document.ofNumber n) cs := by
  obtain ⟨hnumeral, n, hn⟩ := h
  obtain ⟨c, tail, rfl, hc⟩ := hnumeral.exists_cons
  refine ⟨n, readsAs_number hc fun rest hends => ?_⟩
  rw [number_append hnumeral hends.endsNumeral, hn]
  rfl

theorem readsAs_array {items : List Document}
    (h : Enclosed '[' ']' (ReadsAs (Document.read depth)) items cs) :
    ReadsAs (Document.read (depth + 1)) (.array items) cs := by
  refine ((readsBehind_elements h).map Document.array).readsAs (by decide) fun hskip => ?_
  rw [Document.read, hskip]
  rfl

/-- A member that is read as a name and a tree. -/
def ReadsAsMember (depth : Nat) (m : String × Document) (part : List Char) : Prop :=
  Member (WrittenString m.1) (ReadsAs (Document.read depth) m.2) part

/-- How the member with a key is read: it goes before those that are already there. -/
def collect (depth : Nat) (done : List (String × Document)) (name : String) :
    Except Fault (List Char → Reading (List (String × Document))) :=
  .ok fun cs => (Document.read depth cs).map fun (d, rest) => ((name, d) :: done, rest)

theorem readsAs_collect {done : List (String × Document)} {m : String × Document}
    {part : List Char} (h : ReadsAsMember depth m part) :
    ReadsAs (member (collect depth) done) (m :: done) part :=
  readsAs_member rfl (fun _ hvalue => hvalue.map fun d => (m.1, d) :: done) h

theorem readsAs_object {ms : List (String × Document)}
    (h : Enclosed '\x7b' '\x7d' (ReadsAsMember depth) ms cs) :
    ReadsAs (Document.read (depth + 1)) (.object ms) cs := by
  have hmembers := readsBehind_members (I := fun _ _ => True) (s := []) h trivial
    fun _ _ _ _ _ hpart => ⟨readsAs_collect hpart, trivial⟩
  have hreverse : (ms.foldl (fun done m => m :: done) []).reverse = ms := by simp
  rw [← hreverse]
  refine (hmembers.map fun done => Document.object done.reverse).readsAs (by decide) fun hskip => ?_
  rw [Document.read, hskip]
  rfl

theorem readsAs_atom
    (h : IsAtom (fun text => ∃ s, WrittenString s text) IsNumeralInRange cs) :
    ∃ d, (∀ s, d = .string s → WrittenString s cs) ∧ ReadsAs (Document.read depth) d cs := by
  cases h with
  | null => exact ⟨_, by simp, readsAs_null⟩
  | isTrue => exact ⟨_, by simp, readsAs_bool true⟩
  | isFalse => exact ⟨_, by simp, readsAs_bool false⟩
  | text h =>
    obtain ⟨s, h⟩ := h
    refine ⟨_, ?_, readsAs_text h⟩
    rintro _ ⟨⟩
    exact h
  | number h =>
    obtain ⟨n, hn⟩ := readsAs_numeral h
    exact ⟨_, by cases n <;> simp [Document.ofNumber], hn⟩

/-- A value that is used is read, and as a text only where it writes that text. -/
theorem readsAs_used (h : IsUsed depth cs) :
    ∃ d, (∀ s, d = .string s → WrittenString s cs) ∧ ReadsAs (Document.read depth) d cs := by
  induction depth generalizing cs with
  | zero => exact readsAs_atom h
  | succ depth ih =>
    have hsome {cs : List Char} (h : IsUsed depth cs) :
        ∃ d, ReadsAs (Document.read depth) d cs := by
      obtain ⟨d, -, hd⟩ := ih h
      exact ⟨d, hd⟩
    rcases h with h | ⟨count, h⟩ | ⟨count, h⟩
    · exact readsAs_atom h
    · have hitem : ∀ (_ : Unit) part, IsUsed depth part →
          ∃ d, True ∧ ReadsAs (Document.read depth) d part := fun _ _ hpart =>
        (hsome hpart).imp fun _ hd => ⟨trivial, hd⟩
      obtain ⟨items, -, hitems⟩ := h.choose (R := fun _ _ => True) hitem
      exact ⟨_, by simp, readsAs_array hitems⟩
    · have hmember : ∀ (_ : Unit) part,
          Member (fun text => ∃ s, WrittenString s text) (IsUsed depth) part →
          ∃ m, True ∧ ReadsAsMember depth m part := by
        rintro _ _ ⟨⟨name, hkey⟩, hbefore, hafter, hvalue⟩
        obtain ⟨d, hd⟩ := hsome hvalue
        exact ⟨(name, d), trivial, hkey, hbefore, hafter, hd⟩
      obtain ⟨ms, -, hms⟩ := h.choose (R := fun _ _ => True) hmember
      exact ⟨_, by simp, readsAs_object hms⟩

end Used

/-! ## Values that are not used -/

section Unused

variable {depth : Nat} {cs : List Char}

theorem skips_of_atom {c : Char} {tail : List Char} (hc : StartsAtom c)
    (h : ∀ rest, Ends rest → skipAtom c (tail ++ rest) = .ok rest) :
    ReadsAs (skipNested depth) () (c :: tail) := by
  obtain ⟨hspace, hbracket, hbracket', hbrace, hbrace'⟩ := hc
  refine ⟨⟨c, tail, rfl, hspace, hbracket', hbrace'⟩, fun hgap hends => ?_⟩
  rw [skipNested.eq_def, List.cons_append, skipSpace_append hgap hspace]
  simp only [hbracket, hbrace, h _ hends, if_false]
  rfl

theorem skipAtom_numeral (h : IsNumeral cs) :
    ∃ c tail, cs = c :: tail ∧ StartsAtom c ∧
      ∀ rest, Ends rest → skipAtom c (tail ++ rest) = .ok rest := by
  obtain @⟨negative, whole, fraction, exponent, hwhole, hfraction, hexponent⟩ := h
  have hskip {rest : List Char} (hends : Ends rest) :
      skipNumber (whole ++ (fraction ++ (exponent ++ rest))) = .ok rest :=
    skipNumber_append hwhole hfraction hexponent hends.endsNumeral
  cases negative with
  | true =>
    refine ⟨'-', _, rfl, by decide, fun rest hends => ?_⟩
    show skipNumber (whole ++ (fraction ++ exponent) ++ rest) = .ok rest
    rw [List.append_assoc, List.append_assoc]
    exact hskip hends
  | false =>
    obtain ⟨c, tail, rfl, hc⟩ := hwhole.1.exists_cons
    have hstarts := startsNumeral (.inr hc)
    obtain ⟨hquote, hn, ht, hf⟩ := hstarts.notLetter
    have hminus : c ≠ '-' := by
      rintro rfl
      cases hc
    refine ⟨c, _, rfl, hstarts.startsAtom, fun rest hends => ?_⟩
    have hread : skipNumber (c :: (tail ++ (fraction ++ (exponent ++ rest)))) = .ok rest :=
      hskip hends
    show skipAtom c (tail ++ (fraction ++ exponent) ++ rest) = .ok rest
    simp only [skipAtom, hquote, hn, ht, hf, hminus, hc, List.append_assoc, hread, if_false,
      if_true]

theorem skips_atom (h : IsAtom IsQuoted IsNumeral cs) : ReadsAs (skipNested depth) () cs := by
  cases h with
  | null | isTrue | isFalse => exact skips_of_atom (by decide) fun _ _ => rfl
  | text h =>
    obtain ⟨tail, rfl, -⟩ := skipString_append h []
    refine skips_of_atom (by decide) fun rest _ => ?_
    obtain ⟨tail', heq, hskip⟩ := skipString_append h rest
    obtain rfl : tail = tail' := List.tail_eq_of_cons_eq heq
    exact hskip
  | number h =>
    obtain ⟨c, tail, rfl, hc, hskip⟩ := skipAtom_numeral h
    exact skips_of_atom hc hskip

theorem skips_array {count : List Unit}
    (h : Enclosed '[' ']' (ReadsAs (skipNested depth)) count cs) :
    ReadsAs (skipNested (depth + 1)) () cs := by
  refine ((readsBehind_elements h).map fun _ => ()).readsAs (by decide) fun hskip => ?_
  rw [skipNested, hskip]
  rfl

theorem skips_object {count : List Unit}
    (h : Enclosed '\x7b' '\x7d' (fun _ => ReadsAs (skipMember (skipNested depth)) ()) count cs) :
    ReadsAs (skipNested (depth + 1)) () cs := by
  refine (readsBehind_skipMembers h).readsAs (by decide) fun hskip => ?_
  rw [skipNested, hskip]
  rfl

/-- However a value is nested, as many levels as it has characters are enough. -/
theorem skips_value (h : IsValue IsQuoted IsNumeral depth cs) {n : Nat} (hn : cs.length ≤ n) :
    ReadsAs (skipNested n) () cs := by
  induction depth generalizing cs n with
  | zero => exact skips_atom h
  | succ depth ih =>
    have hlevel {opening closing : Char} {Part : Unit → List Char → Prop} {count : List Unit}
        (h : Enclosed opening closing Part count cs) : ∃ m, n = m + 1 := by
      have hpos : 0 < cs.length := by cases h <;> simp
      exact ⟨n - 1, by omega⟩
    rcases h with h | ⟨count, h⟩ | ⟨count, h⟩
    · exact skips_atom h
    · obtain ⟨m, rfl⟩ := hlevel h
      refine skips_array (h.bounded.imp fun _ part hpart => ih hpart.1 ?_)
      have := hpart.2
      omega
    · obtain ⟨m, rfl⟩ := hlevel h
      refine skips_object (h.bounded.imp fun _ part hpart => ?_)
      obtain ⟨⟨hkey, hbefore, hafter, hvalue⟩, hlt⟩ := hpart
      refine readsAs_skipMember ⟨hkey, hbefore, hafter, ih hvalue ?_⟩
      simp only [List.length_append, List.length_cons] at hlt
      omega

/-- A value that is not used is passed over. -/
theorem readsAs_unused (h : IsUnused cs) : ReadsAs skipValue () cs := by
  obtain ⟨depth, h⟩ := h
  obtain ⟨c, tail, rfl, hc⟩ := (skips_value h (Nat.le_refl _)).starts
  refine ⟨⟨c, tail, rfl, hc⟩, fun {gap rest} hgap hends => ?_⟩
  have hle : (c :: tail).length ≤ (gap ++ (c :: tail ++ rest)).length := by
    simp only [List.length_append]
    omega
  exact (skips_value h hle).reads hgap hends

end Unused

end RowPolicy.Json
