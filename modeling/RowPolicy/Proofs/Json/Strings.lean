import RowPolicy.Proofs.Json.Spelling

/-!
# Texts between quotes

A reader goes through what stands between quotes part by part. Where the text is used, every
spelling of a character is read as that character, and `string_append` gives the whole text back.
Where it is not used, `skipString_append` finds the quote that ends it.
-/
namespace RowPolicy.Json

/-! ## Code units -/

theorem hexDigit?_eq_some {c : Char} {n : Nat} (h : IsHexDigit c n) :
    hexDigit? c = some n ∧ n < 16 ∧ c.utf8Size = 1 := by
  have hn : n < 16 := by
    rcases h with h | h <;> exact (List.getElem?_eq_some_iff.mp h).1
  have hdigit {digits : List Char} (h : digits[n]? = some c)
      (hall : ∀ n < 16, digits[n]?.all
        (fun c => decide (hexDigit? c = some n ∧ c.utf8Size = 1)) = true) :
      hexDigit? c = some n ∧ c.utf8Size = 1 := by
    simpa [h] using hall n hn
  have hread : hexDigit? c = some n ∧ c.utf8Size = 1 := by
    rcases h with h | h <;> exact hdigit h (by decide)
  exact ⟨hread.1, hn, hread.2⟩

theorem IsCodeUnit.length_eq {n : Nat} {digits : List Char} (h : IsCodeUnit n digits) :
    digits.length = 4 := by
  cases h
  rfl

theorem codeUnit_append {n : Nat} {digits : List Char} (h : IsCodeUnit n digits)
    (rest : List Char) : codeUnit (digits ++ rest) = .ok n := by
  have htake : (digits ++ rest).take 4 = digits := List.take_left' h.length_eq
  obtain @⟨a, b, c, d, k, l, m, n, ha, hb, hc, hd⟩ := h
  obtain ⟨ha, -, ha'⟩ := hexDigit?_eq_some ha
  obtain ⟨hb, -, hb'⟩ := hexDigit?_eq_some hb
  obtain ⟨hc, -, hc'⟩ := hexDigit?_eq_some hc
  obtain ⟨hd, -, hd'⟩ := hexDigit?_eq_some hd
  have hbytes : byteCount [a, b, c, d] = 4 := by simp [byteCount, ha', hb', hc', hd']
  have hvalue : hexValue? [a, b, c, d] = some (((k * 16 + l) * 16 + m) * 16 + n) := by
    simp only [hexValue?, List.foldl_cons, List.foldl_nil, Option.bind_some, ha, hb, hc, hd,
      Option.map_some, Option.some_inj]
    omega
  rw [codeUnit, htake, hbytes, hvalue]
  rfl

/-! ## Escapes -/

theorem shortEscape?_eq_some {letter c : Char} (h : (letter, c) ∈ shortEscapes) :
    shortEscape? letter = some c ∧ letter ≠ 'u' := by
  have hall : ∀ e ∈ shortEscapes, shortEscape? e.1 = some e.2 ∧ e.1 ≠ 'u' := by decide
  exact hall _ h

theorem escape_short {letter c : Char} (h : (letter, c) ∈ shortEscapes) (rest : List Char) :
    escape (letter :: rest) = .ok (c, 1) := by
  obtain ⟨hescape, hne⟩ := shortEscape?_eq_some h
  rw [escape]
  · rw [hescape]
  · exact hne

/-- No character is half of a pair. -/
theorem isSurrogate_toNat (c : Char) :
    isHighSurrogate c.toNat = false ∧ isLowSurrogate c.toNat = false := by
  have hvalid : c.toNat < 0xd800 ∨ 0xdfff < c.toNat ∧ c.toNat < 0x110000 := c.valid
  simp only [isHighSurrogate, isLowSurrogate, Bool.and_eq_false_iff, decide_eq_false_iff_not]
  omega

theorem escape_unit {c : Char} {digits : List Char} (h : IsCodeUnit c.toNat digits)
    (rest : List Char) : escape ('u' :: (digits ++ rest)) = .ok (c, 5) := by
  obtain ⟨hhigh, hlow⟩ := isSurrogate_toNat c
  simp [escape, unicodeEscape, codeUnit_append h, hhigh, hlow, Char.ofNat_toNat]

theorem escape_pair {c : Char} {high low : Nat} {digits digits' : List Char}
    (hhigh : IsCodeUnit high digits) (hlow : IsCodeUnit low digits')
    (hhigh' : 0xd800 ≤ high ∧ high < 0xdc00) (hlow' : 0xdc00 ≤ low ∧ low < 0xe000)
    (h : c.toNat = 0x10000 + (high - 0xd800) * 0x400 + (low - 0xdc00)) (rest : List Char) :
    escape ('u' :: (digits ++ '\\' :: 'u' :: digits' ++ rest)) = .ok (c, 11) := by
  have hfirst : isLowSurrogate high = false ∧ isHighSurrogate high = true := by
    simp [isLowSurrogate, isHighSurrogate]
    omega
  have hsecond : isLowSurrogate low = true := by
    simp [isLowSurrogate]
    omega
  have hdrop : (digits ++ '\\' :: 'u' :: (digits' ++ rest)).drop 4 =
      '\\' :: 'u' :: (digits' ++ rest) := List.drop_left' hhigh.length_eq
  simp [escape, unicodeEscape, codeUnit_append hhigh, hfirst, hdrop, lowSurrogate, literally,
    codeUnit_append hlow, hsecond, ← h, Char.ofNat_toNat, List.append_assoc]

/-! ## Texts that are used -/

/-- A text may be written as it is if no character in it needs an escape. -/
theorem writtenString_plain {s : String} (h : ∀ c ∈ s.toList, IsPlain c) :
    WrittenString s ('"' :: (s.toList ++ ['"'])) := by
  refine ⟨s.toList.map ([·]), ?_, by simp [← List.flatMap_def]⟩
  rw [List.forall₂_map_right_iff]
  exact List.forall₂_same.mpr fun c hc => .plain (h c hc)

theorem isControl_eq_false {c : Char} (h : IsPlain c) : isControl c = false := by
  have := h.2.2
  simp [isControl]
  omega

theorem stringBody_plain {c : Char} (h : IsPlain c) (rest : List Char) :
    stringBody (c :: rest) = (stringBody rest).map fun (s, rest) => (c :: s, rest) := by
  rw [stringBody]
  simp only [h.1, h.2.1, isControl_eq_false h, if_false, Bool.false_eq_true]
  cases stringBody rest <;> rfl

theorem stringBody_escape {cs : List Char} {c : Char} {taken : Nat}
    (h : escape cs = .ok (c, taken)) :
    stringBody ('\\' :: cs) =
      (stringBody (cs.drop taken)).map fun (s, rest) => (c :: s, rest) := by
  rw [stringBody]
  simp only [h, Char.reduceEq, if_false, if_true]
  cases stringBody (cs.drop taken) <;> rfl

theorem stringBody_part {c : Char} {part : List Char} (h : Quoted c part) (rest : List Char) :
    stringBody (part ++ rest) = (stringBody rest).map fun (s, rest) => (c :: s, rest) := by
  cases h with
  | plain h => exact stringBody_plain h rest
  | @short letter _ h => exact stringBody_escape (escape_short h rest)
  | @unit _ digits h =>
    rw [List.cons_append, List.cons_append, stringBody_escape (escape_unit h rest),
      List.drop_succ_cons, List.drop_left' h.length_eq]
  | @pair _ high low digits digits' hhigh hlow hhigh' hlow' h =>
    have hlength : (digits ++ '\\' :: 'u' :: digits').length = 10 := by
      simp [hhigh.length_eq, hlow.length_eq]
    rw [List.cons_append, List.cons_append,
      stringBody_escape (escape_pair hhigh hlow hhigh' hlow' h rest), List.drop_succ_cons,
      List.drop_left' hlength]

theorem stringBody_append {s : List Char} {parts : List (List Char)}
    (h : List.Forall₂ Quoted s parts) (rest : List Char) :
    stringBody (parts.flatten ++ '"' :: rest) = .ok (s, rest) := by
  induction h with
  | nil =>
    rw [List.flatten_nil, List.nil_append, stringBody]
    rfl
  | cons hc _ ih =>
    rw [List.flatten_cons, List.append_assoc, stringBody_part hc, ih]
    rfl

/-- A text is read from behind its first quote, and nothing behind its last one is taken. -/
theorem string_append {s : String} {cs : List Char} (h : WrittenString s cs) (rest : List Char) :
    ∃ tail, cs = '"' :: tail ∧ string (tail ++ rest) = .ok (s, rest) := by
  obtain ⟨parts, hparts, rfl⟩ := h
  refine ⟨_, rfl, ?_⟩
  rw [List.append_assoc, List.singleton_append, string, stringBody_append hparts]
  simp [Except.map]

/-! ## Texts that are not used -/

theorem skipString_part {part : List Char} (h : QuotedPart part) (rest : List Char) :
    skipString (part ++ rest) = skipString rest := by
  cases h with
  | plain h =>
    rw [List.singleton_append, skipString]
    simp [h.1, h.2.1, isControl_eq_false h]
  | @short letter c h =>
    obtain ⟨hescape, hne⟩ := shortEscape?_eq_some h
    have hlength : escapeLength (letter :: rest) = .ok 1 := by
      rw [escapeLength]
      · simp [hescape]
      · exact hne
    rw [List.cons_append, skipString]
    simp [hlength]
  | @unit n digits h =>
    have hlength : escapeLength ('u' :: (digits ++ rest)) = .ok 5 := by
      simp [escapeLength, codeUnit_append h]
    rw [List.cons_append, List.cons_append, skipString]
    simp [hlength, List.drop_left' h.length_eq]

theorem skipString_append {cs : List Char} (h : IsQuoted cs) (rest : List Char) :
    ∃ tail, cs = '"' :: tail ∧ skipString (tail ++ rest) = .ok rest := by
  obtain ⟨parts, hparts, rfl⟩ := h
  refine ⟨_, rfl, ?_⟩
  rw [List.append_assoc, List.singleton_append]
  induction parts with
  | nil =>
    rw [List.flatten_nil, List.nil_append, skipString]
    rfl
  | cons part parts ih =>
    obtain ⟨hpart, hparts⟩ := List.forall_mem_cons.mp hparts
    rw [List.flatten_cons, List.append_assoc, skipString_part hpart, ih hparts]

end RowPolicy.Json
