import RowPolicy.Text.Casing

/-!
# Lower case, character by character

The lower case of a text is put together from what its characters become. A capital sigma looks at
what stands around it, and the dotted capital I becomes two characters; every other character
becomes one, wherever it stands. A `%` comes from nothing but a `%`.
-/
namespace RowPolicy.Casing

/-- What a character becomes between what stands before it, in reverse, and behind it. -/
def lowerPart (before : List Char) (c : Char) (after : List Char) : List Char :=
  if c = 'Σ' then [lowerSigma before after]
  else if c = 'İ' then ['i', '\u0307']
  else [lowerLetter c]

variable {before after before' after' : List Char} {c : Char}

theorem lowerAfter_cons (before : List Char) (c : Char) (cs : List Char) :
    lowerAfter before (c :: cs) = lowerPart before c cs ++ lowerAfter (c :: before) cs := by
  rw [lowerAfter, lowerPart]
  split
  · rfl
  · split <;> rfl

theorem exists_lowerAfter_append (before cs ds : List Char) :
    ∃ piece, lowerAfter before (cs ++ ds) = piece ++ lowerAfter (cs.reverse ++ before) ds := by
  induction cs generalizing before with
  | nil => exact ⟨[], rfl⟩
  | cons c cs ih =>
    obtain ⟨piece, hpiece⟩ := ih (c :: before)
    refine ⟨lowerPart before c (cs ++ ds) ++ piece, ?_⟩
    simp [lowerAfter_cons, hpiece]

theorem lowerPart_sigma (before after : List Char) :
    lowerPart before 'Σ' after = [lowerSigma before after] := rfl

theorem lowerPart_congr (h : c = 'Σ' → lowerSigma before after = lowerSigma before' after') :
    lowerPart before c after = lowerPart before' c after' := by
  by_cases hc : c = 'Σ'
  · subst hc
    rw [lowerPart_sigma, lowerPart_sigma, h rfl]
  · simp [lowerPart, hc]

theorem length_lowerPart (before : List Char) (c : Char) (after : List Char) :
    (lowerPart before c after).length = if c = 'İ' then 2 else 1 := by
  by_cases hc : c = 'Σ'
  · subst hc
    rfl
  · by_cases hc' : c = 'İ' <;> simp [lowerPart, hc, hc']

theorem lowerPart_underscore (before after : List Char) : lowerPart before '_' after = ['_'] := rfl

theorem lowerPart_percent (before after : List Char) : lowerPart before '%' after = ['%'] := rfl

/-! ## Sigma -/

theorem inRanges_eq_any (ranges : Array (Nat × Nat)) (c : Char) :
    inRanges ranges c = ranges.toList.any fun (first, last) => first ≤ c.toNat && c.toNat ≤ last :=
  Array.any_toList.symm

/-- A character that counts decides. -/
theorem meetsCased_cons (h : isIgnorable c = false) (cs : List Char) :
    meetsCased (c :: cs) = isCased c := by
  simp [meetsCased, h]

theorem lowerSigma_eq (before after : List Char) :
    lowerSigma before after = 'ς' ∨ lowerSigma before after = 'σ' := by
  rw [lowerSigma]
  split
  · exact .inl rfl
  · exact .inr rfl

/-! ## Signs -/

/-- The lower case letters begin behind the signs. -/
theorem percent_lt_target {run : Nat × Nat × Nat × Nat} (h : run ∈ lowerRuns) :
    '%'.toNat < run.2.2.2 := by
  have hruns : ∀ run ∈ lowerRuns.toList, '%'.toNat < run.2.2.2 := by decide +kernel
  exact hruns run (Array.mem_toList_iff.mpr h)

theorem ofNat_ne_percent {n : Nat} (h : '%'.toNat < n) : Char.ofNat n ≠ '%' := by
  intro hc
  by_cases hvalid : n.isValidChar
  · have hn : Char.ofNat n = Char.ofNatAux n hvalid := dif_pos hvalid
    exact absurd (congrArg Char.toNat (hn.symm.trans hc)) (Nat.ne_of_gt h)
  · have hnull : Char.ofNat n = '\x00' := dif_neg hvalid
    exact absurd (hnull.symm.trans hc) (by decide)

theorem lowerLetter_ne_percent (h : c ≠ '%') : lowerLetter c ≠ '%' := by
  rw [lowerLetter]
  split
  case isTrue hlt =>
    have hlower : ∀ n < 0x80, Char.ofNat n ≠ '%' → (Char.ofNat n).toLower ≠ '%' := by decide
    simpa [Char.ofNat_toNat, h] using hlower c.toNat hlt
  case isFalse =>
    split
    case h_1 hrun =>
      have htarget := percent_lt_target (Array.mem_of_find?_eq_some hrun)
      exact ofNat_ne_percent (Nat.lt_add_right _ htarget)
    case h_2 => exact h

theorem percent_notMem_lowerPart (h : c ≠ '%') : '%' ∉ lowerPart before c after := by
  rw [lowerPart]
  split
  · rcases lowerSigma_eq before after with hsigma | hsigma <;> simp [hsigma]
  · split
    · decide
    · simpa using (lowerLetter_ne_percent h).symm

theorem percent_notMem_lowerAfter {cs : List Char} (h : '%' ∉ cs) (before : List Char) :
    '%' ∉ lowerAfter before cs := by
  induction cs generalizing before with
  | nil => exact h
  | cons c cs ih =>
    obtain ⟨hc, hcs⟩ := List.ne_and_not_mem_of_not_mem_cons h
    rw [lowerAfter_cons, List.mem_append, not_or]
    exact ⟨percent_notMem_lowerPart hc.symm, ih hcs _⟩

theorem percent_notMem_lower {cs : List Char} (h : '%' ∉ cs) : '%' ∉ lower cs :=
  percent_notMem_lowerAfter h []

end RowPolicy.Casing
