import RowPolicy.Proofs.PolicyText.Concatenation

/-!
# What surrounds a literal

A literal stands at a place in a text: behind some blocks, in a block behind some conditions, and
perhaps in lists, in each behind some items. `Place.Reaches` says that reading a text comes to a
literal at a place, with the text that is left there, and `Finishes` that what stands behind a
literal completes the lists around it, its block and the text.

Between the two there is just the literal. A text is read if and only if the literal at a place that
is reached is found and what is left behind it finishes the text, and then the literal is the value
at that place. Conversely reading comes to every value that a text holds, and each is a list or
`Legible`.
-/
namespace RowPolicy

/-- The value at a path into nested lists. -/
def Value.at? : List Nat → Value → Option Value
  | [], v => some v
  | i :: path, .list items => items[i]?.bind (Value.at? path)
  | _ :: _, _ => none

namespace PolicyText

variable {α : Type} {cs rest after : List Char}

/-! ## Places -/

/-- Where a literal stands, by how many blocks, conditions and items are in front of it. -/
structure Place where
  inBlock : Nat
  inCondition : Nat
  path : List Nat

/-- The value at a place in some blocks. -/
def Place.value? (p : Place) (bs : List (String × Policy)) : Option Value :=
  bs[p.inBlock]?.bind fun b => b.2.conditions[p.inCondition]?.bind fun c => c.value.at? p.path

/-- Reading comes from a text to the rest of it over some members of a series. -/
inductive Passes (read : List Char → Outcome α) : List α → List Char → List Char → Prop where
  | nil {cs : List Char} : Passes read [] cs cs
  | cons {a : α} {as : List α} {cs mid rest : List Char} (found : read cs = .found a mid)
    (others : Passes read as mid rest) : Passes read (a :: as) cs rest

mutual

/-- Reading a literal comes to the literal at a path inside it, with the rest of the text. -/
inductive Enters : List Nat → List Char → List Char → Prop where
  | here {cs : List Char} : Enters [] cs cs
  | list {path : List Nat} {cs inner rest : List Char} (bracket : skip cs = '[' :: inner)
    (items : EntersItems path inner rest) : Enters path cs rest

/-- The same for the items of a list, which are passed one by one. -/
inductive EntersItems : List Nat → List Char → List Char → Prop where
  | first {path : List Nat} {cs rest : List Char} (item : Enters path cs rest) :
    EntersItems (0 :: path) cs rest
  | later {i : Nat} {path : List Nat} {v : Value} {cs mid next rest : List Char}
    (found : literal cs = .found v mid) (comma : skip mid = ',' :: next)
    (items : EntersItems (i :: path) next rest) : EntersItems ((i + 1) :: path) cs rest

end

/-- Reading a text comes to the literal at a place, with the rest of the text. -/
inductive Place.Reaches : Place → List Char → List Char → Prop where
  | mk {bs : List (String × Policy)} {conditions : List Condition} {path : List Nat}
    {resource effect column token r₀ r₁ r₂ r₃ r₄ r₅ r₆ r₇ text rest : List Char}
    (blocks : Passes block bs text r₀)
    (word : literally? "policy".toList (skip r₀) = some r₁)
    (resourceName : name? (skip r₁) = some (resource, r₂))
    (effectName : name? (skip r₂) = some (effect, r₃))
    (brace : skip r₃ = '\x7b' :: r₄)
    (before : Passes condition conditions r₄ r₅)
    (columnName : name? (skip r₅) = some (column, r₆))
    (operator : operator? (skip r₆) = some (token, r₇))
    (value : Enters path r₇ rest) :
    Reaches ⟨bs.length, conditions.length, path⟩ text rest

/-- Behind a literal so many lists end, each after any further items. -/
inductive Closes : Nat → List Char → List Char → Prop where
  | none {cs : List Char} : Closes 0 cs cs
  | list {depth : Nat} {vs : List Value} {cs mid close rest : List Char}
    (inside : Closes depth cs mid) (items : furtherItems mid = .ok (vs, close))
    (bracket : skip close = ']' :: rest) : Closes (depth + 1) cs rest

/-- Behind a literal in so many lists its block ends, and only blocks follow. -/
inductive Finishes : Nat → List Char → Prop where
  | mk {depth : Nat} {conditions : List Condition} {bs : List (String × Policy)}
    {cs r₁ r₂ r₃ : List Char} (lists : Closes depth cs r₁)
    (behind : many condition r₁ = .ok (conditions, r₂)) (brace : skip r₂ = '\x7d' :: r₃)
    (others : blocks r₃ = .ok bs) : Finishes depth cs

theorem Outcome.Within.lt_of_found {a : α} {o : Outcome α} (h : o.Within cs)
    (hfound : o = .found a rest) : rest.length < cs.length := by
  rw [hfound] at h
  exact h

theorem map_eq_ok_iff {ε β : Type} {f : α → β} {x : Except ε α} {b : β} :
    x.map f = .ok b ↔ ∃ a, x = .ok a ∧ f a = b := by
  cases x <;> simp [Except.map]

/-! ## Items -/

theorem items_of_found {v : Value} (h : literal cs = .found v rest) :
    items cs = (furtherItems rest).map fun (vs, r) => (v :: vs, r) := by
  have hlt := (literal_within cs).lt_of_found h
  rw [items, h]
  simp only [hlt, if_true]
  rcases furtherItems rest with f | ⟨vs, r⟩ <;> rfl

/-- Behind a comma the further items are items, if there are any. -/
theorem furtherItems_of_comma {v : Value} {next : List Char} (comma : skip cs = ',' :: next)
    (h : literal next = .found v rest) : furtherItems cs = items next := by
  have hlt := (literal_within next).lt_of_found h
  have hlt' := length_lt_of_skip comma
  rw [items_of_found h, furtherItems_eq, comma]
  simp only [h, hlt.trans hlt', if_true]
  rcases furtherItems rest with f | ⟨vs, r⟩ <;> rfl

/-- Either there are no items, or the first one is found and the others are read. -/
theorem items_eq_ok {vs : List Value} {close : List Char} (h : items cs = .ok (vs, close)) :
    vs = [] ∧ close = cs ∨
      ∃ v us mid, vs = v :: us ∧ literal cs = .found v mid ∧ furtherItems mid = .ok (us, close) := by
  cases hv : literal cs with
  | absent =>
    rw [items, hv] at h
    cases h
    exact .inl ⟨rfl, rfl⟩
  | fault f =>
    rw [items, hv] at h
    cases h
  | found v mid =>
    rw [items_of_found hv] at h
    obtain ⟨⟨us, r⟩, hfurther, hfound⟩ := map_eq_ok_iff.mp h
    cases hfound
    exact .inr ⟨v, us, mid, rfl, rfl, hfurther⟩

/-- Either there are no further items, or they are the items behind a comma. -/
theorem furtherItems_eq_ok {vs : List Value} {close : List Char}
    (h : furtherItems cs = .ok (vs, close)) :
    vs = [] ∧ close = cs ∨ ∃ next, skip cs = ',' :: next ∧ items next = .ok (vs, close) := by
  have hread := h
  rw [furtherItems_eq] at hread
  split at hread
  · next next hcomma =>
    cases hv : literal next with
    | absent =>
      rw [hv] at hread
      cases hread
      exact .inl ⟨rfl, rfl⟩
    | fault f =>
      rw [hv] at hread
      cases hread
    | found v mid => exact .inr ⟨next, hcomma, (furtherItems_of_comma hcomma hv).symm.trans h⟩
  · cases hread
    exact .inl ⟨rfl, rfl⟩

/-! ## Literals -/

theorem Enters.bracket_notMem {path : List Nat} (h : Enters path cs rest)
    (hstop : ']' ∉ (skip rest).head?) : ']' ∉ (skip cs).head? := by
  cases h with
  | here => exact hstop
  | list bracket => simp [bracket]

theorem EntersItems.bracket_notMem {path : List Nat} (h : EntersItems path cs rest)
    (hstop : ']' ∉ (skip rest).head?) : ']' ∉ (skip cs).head? := by
  cases h with
  | first item => exact item.bracket_notMem hstop
  | later found =>
    intro hmem
    obtain ⟨ds, hskip⟩ := List.head?_eq_some_iff.mp hmem
    rw [literal_of_scalar hskip (by decide), scalar, scalar?_bracket] at found
    cases found

mutual

/-- What is found around a literal holds the literal at its path. A list that is found was not empty
where the literal starts with something else than its closing bracket. -/
theorem Enters.exists_found {path : List Nat} {cs rest r : List Char} {w : Value}
    (h : Enters path cs rest) (hstop : ']' ∉ (skip rest).head?) (hw : literal cs = .found w r) :
    ∃ v after, literal rest = .found v after ∧ Closes path.length after r ∧ w.at? path = some v := by
  match h with
  | .here => exact ⟨w, r, hw, .none, rfl⟩
  | .list bracket others =>
    obtain ⟨vs, close, hitems, hclose, rfl⟩ := literal_eq_found_of_bracket bracket hw
    exact others.exists_found hstop hitems hclose

theorem EntersItems.exists_found {path : List Nat} {cs rest close r : List Char} {vs : List Value}
    (h : EntersItems path cs rest) (hstop : ']' ∉ (skip rest).head?)
    (hvs : items cs = .ok (vs, close)) (hclose : skip close = ']' :: r) :
    ∃ v after, literal rest = .found v after ∧ Closes path.length after r ∧
      (Value.list vs).at? path = some v := by
  obtain ⟨rfl, rfl⟩ | ⟨w, us, mid, rfl, hw, hus⟩ := items_eq_ok hvs
  · exact absurd (by rw [hclose]; rfl) (h.bracket_notMem hstop)
  match h with
  | .first item =>
    obtain ⟨v, after, hv, hcloses, hat⟩ := item.exists_found hstop hw
    exact ⟨v, after, hv, .list hcloses hus hclose, hat⟩
  | .later found comma others =>
    rw [found] at hw
    cases hw
    obtain ⟨rfl, rfl⟩ | ⟨next, hcomma, hothers⟩ := furtherItems_eq_ok hus
    · -- A comma cannot be left where the bracket stands.
      rw [comma] at hclose
      cases hclose
    · rw [comma] at hcomma
      cases hcomma
      exact others.exists_found hstop hothers hclose

end

mutual

/-- If a literal is found and the lists around it end, these lists are found. -/
theorem Enters.found {path : List Nat} {cs rest after r : List Char} {v : Value}
    (h : Enters path cs rest) (hv : literal rest = .found v after)
    (hcloses : Closes path.length after r) : ∃ w, literal cs = .found w r := by
  match h with
  | .here =>
    cases hcloses
    exact ⟨v, hv⟩
  | .list bracket others =>
    obtain ⟨w, us, mid, close, hw, hus, hclose⟩ := others.found hv hcloses
    have hitems := items_of_literal hw ((literal_within _).lt_of_found hw) hus
    exact ⟨.list (w :: us), literal_of_items bracket hitems hclose⟩

theorem EntersItems.found {path : List Nat} {cs rest after r : List Char} {v : Value}
    (h : EntersItems path cs rest) (hv : literal rest = .found v after)
    (hcloses : Closes path.length after r) :
    ∃ w us mid close, literal cs = .found w mid ∧ furtherItems mid = .ok (us, close) ∧
      skip close = ']' :: r := by
  match h with
  | .first item =>
    cases hcloses with
    | list inside hfurther hclose =>
      obtain ⟨w, hw⟩ := item.found hv inside
      exact ⟨w, _, _, _, hw, hfurther, hclose⟩
  | .later hfound comma others =>
    obtain ⟨w, us, mid, close, hw, hus, hclose⟩ := others.found hv hcloses
    refine ⟨_, w :: us, _, close, hfound, ?_, hclose⟩
    rw [furtherItems_of_comma comma hw, items_of_found hw, hus]
    rfl

end

/-! ## Series -/

section Series

variable {read : List Char → Outcome α}

theorem many_eq_ok_iff_of_found {a : α} {as : List α} (hwithin : (read cs).Within cs)
    (h : read cs = .found a rest) :
    many read cs = .ok (as, after) ↔ ∃ bs, many read rest = .ok (bs, after) ∧ as = a :: bs := by
  rw [many_of_found h (hwithin.lt_of_found h), map_eq_ok_iff]
  constructor
  · rintro ⟨⟨bs, r⟩, hmany, hfound⟩
    cases hfound
    exact ⟨bs, hmany, rfl⟩
  · rintro ⟨bs, hmany, rfl⟩
    exact ⟨(bs, after), hmany, rfl⟩

/-- What starts as a member of a series has to be one. -/
theorem many_eq_ok_iff_of_ne_absent {as : List α} (hwithin : (read cs).Within cs)
    (h : read cs ≠ .absent) :
    many read cs = .ok (as, after) ↔
      ∃ a mid bs, read cs = .found a mid ∧ many read mid = .ok (bs, after) ∧ as = a :: bs := by
  cases hread : read cs with
  | absent => exact absurd hread h
  | fault f => simp [many_of_fault hread]
  | found a mid =>
    rw [many_eq_ok_iff_of_found hwithin hread]
    constructor
    · rintro ⟨bs, hmany, has⟩
      exact ⟨a, mid, bs, rfl, hmany, has⟩
    · rintro ⟨_, _, bs, ⟨⟩, hmany, has⟩
      exact ⟨bs, hmany, has⟩

theorem exists_found_of_many_cons {a : α} {as : List α} (hwithin : (read cs).Within cs)
    (h : many read cs = .ok (a :: as, after)) :
    ∃ mid, read cs = .found a mid ∧ many read mid = .ok (as, after) := by
  have hne : read cs ≠ .absent := by
    intro habsent
    rw [many_of_absent habsent] at h
    cases h
  obtain ⟨b, mid, bs, hread, hmany, has⟩ := (many_eq_ok_iff_of_ne_absent hwithin hne).mp h
  cases has
  exact ⟨mid, hread, hmany⟩

theorem Passes.many_eq_ok_iff {as bs : List α} (hwithin : ∀ cs, (read cs).Within cs)
    (h : Passes read as cs rest) :
    many read cs = .ok (bs, after) ↔
      ∃ others, many read rest = .ok (others, after) ∧ bs = as ++ others := by
  induction h generalizing bs with
  | nil => simp
  | cons found _ ih =>
    rw [many_eq_ok_iff_of_found (hwithin _) found]
    simp only [ih]
    constructor
    · rintro ⟨_, ⟨others, hmany, rfl⟩, rfl⟩
      exact ⟨others, hmany, rfl⟩
    · rintro ⟨others, hmany, rfl⟩
      exact ⟨_, ⟨others, hmany, rfl⟩, rfl⟩

end Series

/-! ## Conditions and blocks -/

section Condition

variable {column token mid r : List Char}

theorem condition_ne_absent (columnName : name? (skip cs) = some (column, mid)) :
    condition cs ≠ .absent := by
  intro h
  simp only [condition, columnName] at h
  split at h
  · cases h
  · split at h <;> cases h

theorem condition_eq_found_iff {c : Condition} (columnName : name? (skip cs) = some (column, mid))
    (operator : operator? (skip mid) = some (token, rest)) :
    condition cs = .found c r ↔
      ∃ v, literal rest = .found v r ∧ c = ⟨String.ofList column, String.ofList token, v⟩ := by
  simp only [condition, columnName, operator]
  cases literal rest with
  | absent | fault => simp
  | found v r' =>
    constructor
    · rintro ⟨⟩
      exact ⟨v, rfl, rfl⟩
    · rintro ⟨_, ⟨⟩, rfl⟩
      rfl

end Condition

section Block

variable {resource effect r₁ r₂ r₃ inner r : List Char}

theorem body_ne_absent : body resource effect cs ≠ .absent := by
  intro h
  unfold body at h
  split at h
  · split at h
    · cases h
    · split at h <;> cases h
  · cases h

theorem block_ne_absent (word : literally? "policy".toList (skip cs) = some r₁) :
    block cs ≠ .absent := by
  intro h
  simp only [block, word] at h
  split at h
  · cases h
  · split at h
    · cases h
    · exact body_ne_absent h

theorem block_eq_found_iff {b : String × Policy}
    (word : literally? "policy".toList (skip cs) = some r₁)
    (resourceName : name? (skip r₁) = some (resource, r₂))
    (effectName : name? (skip r₂) = some (effect, r₃)) (brace : skip r₃ = '\x7b' :: inner) :
    block cs = .found b r ↔
      ∃ conditions close, many condition inner = .ok (conditions, close) ∧
        skip close = '\x7d' :: r ∧
        b = (String.ofList resource, ⟨Effect.ofToken (String.ofList effect), conditions⟩) := by
  simp only [block, word, resourceName, effectName, body, brace]
  rcases many condition inner with f | ⟨conditions, close⟩
  · simp
  · constructor
    · intro h
      dsimp only at h
      split at h
      · next hclose =>
        cases h
        exact ⟨conditions, close, rfl, hclose, rfl⟩
      · cases h
    · rintro ⟨_, _, ⟨⟩, hclose, rfl⟩
      simp only [hclose]

theorem blocks_eq_ok_iff {bs : List (String × Policy)} :
    blocks cs = .ok bs ↔ ∃ r, many block cs = .ok (bs, r) ∧ skip r = [] := by
  rw [blocks]
  rcases many block cs with f | ⟨bs', r⟩
  · simp
  · constructor
    · intro h
      dsimp only at h
      split at h
      · next hend =>
        cases h
        exact ⟨r, rfl, hend⟩
      · cases h
    · rintro ⟨_, ⟨⟩, hend⟩
      simp only [hend]

end Block

/-! ## Whole texts -/

/-- A text is read if the literal at a place is found, then further conditions up to a brace, and
then blocks. -/
theorem blocks_eq_ok_iff_of_passes {blocksBefore bs : List (String × Policy)}
    {before : List Condition} {text resource effect column token r₀ r₁ r₂ r₃ r₄ r₅ r₆ : List Char}
    (passed : Passes block blocksBefore text r₀)
    (word : literally? "policy".toList (skip r₀) = some r₁)
    (resourceName : name? (skip r₁) = some (resource, r₂))
    (effectName : name? (skip r₂) = some (effect, r₃)) (brace : skip r₃ = '\x7b' :: r₄)
    (conditions : Passes condition before r₄ r₅)
    (columnName : name? (skip r₅) = some (column, r₆))
    (operator : operator? (skip r₆) = some (token, rest)) :
    blocks text = .ok bs ↔
      ∃ v mid further close r later, literal rest = .found v mid ∧
        many condition mid = .ok (further, close) ∧ skip close = '\x7d' :: r ∧
        blocks r = .ok later ∧
        bs = blocksBefore ++ (String.ofList resource, ⟨Effect.ofToken (String.ofList effect),
          before ++ ⟨String.ofList column, String.ofList token, v⟩ :: further⟩) :: later := by
  rw [blocks_eq_ok_iff]
  constructor
  · rintro ⟨last, hblocks, hend⟩
    obtain ⟨_, hrest, rfl⟩ := (passed.many_eq_ok_iff block_within).mp hblocks
    obtain ⟨b, r, later, hb, hlater, rfl⟩ :=
      (many_eq_ok_iff_of_ne_absent (block_within _) (block_ne_absent word)).mp hrest
    obtain ⟨_, close, hconditions, hclose, rfl⟩ :=
      (block_eq_found_iff word resourceName effectName brace).mp hb
    obtain ⟨_, hothers, rfl⟩ := (conditions.many_eq_ok_iff condition_within).mp hconditions
    obtain ⟨c, mid, further, hc, hfurther, rfl⟩ :=
      (many_eq_ok_iff_of_ne_absent (condition_within _) (condition_ne_absent columnName)).mp hothers
    obtain ⟨v, hv, rfl⟩ := (condition_eq_found_iff columnName operator).mp hc
    exact ⟨v, mid, further, close, r, later, hv, hfurther, hclose,
      blocks_eq_ok_iff.mpr ⟨last, hlater, hend⟩, rfl⟩
  · rintro ⟨v, mid, further, close, r, later, hv, hfurther, hclose, hlater, rfl⟩
    obtain ⟨last, hlater, hend⟩ := blocks_eq_ok_iff.mp hlater
    have hc := (condition_eq_found_iff columnName operator).mpr ⟨v, hv, rfl⟩
    have hothers := (many_eq_ok_iff_of_found (condition_within _) hc).mpr ⟨_, hfurther, rfl⟩
    have hconditions := (conditions.many_eq_ok_iff condition_within).mpr ⟨_, hothers, rfl⟩
    have hb := (block_eq_found_iff word resourceName effectName brace).mpr
      ⟨_, _, hconditions, hclose, rfl⟩
    have hblocks := (many_eq_ok_iff_of_found (block_within _) hb).mpr ⟨_, hlater, rfl⟩
    exact ⟨last, (passed.many_eq_ok_iff block_within).mpr ⟨_, hblocks, rfl⟩, hend⟩

/-- In a text that is read the literal at a place is found, and it is the value there. -/
theorem Place.Reaches.exists_found {p : Place} {text : List Char} {bs : List (String × Policy)}
    (h : p.Reaches text rest) (hstop : ']' ∉ (skip rest).head?) (hbs : blocks text = .ok bs) :
    ∃ v after, literal rest = .found v after ∧ Finishes p.path.length after ∧
      p.value? bs = some v := by
  obtain ⟨blocksBefore, word, resourceName, effectName, brace, before, columnName, operator,
    value⟩ := h
  obtain ⟨w, mid, further, close, r, later, hw, hfurther, hclose, hlater, rfl⟩ :=
    (blocks_eq_ok_iff_of_passes blocksBefore word resourceName effectName brace before columnName
      operator).mp hbs
  obtain ⟨v, after, hv, hcloses, hat⟩ := value.exists_found hstop hw
  refine ⟨v, after, hv, .mk hcloses hfurther hclose hlater, ?_⟩
  simp [Place.value?, hat]

/-- A text is read if the literal at a place is found and the rest finishes the text. -/
theorem Place.Reaches.exists_blocks {p : Place} {text : List Char} {v : Value}
    (h : p.Reaches text rest) (hv : literal rest = .found v after)
    (hfinishes : Finishes p.path.length after) : ∃ bs, blocks text = .ok bs := by
  obtain ⟨blocksBefore, word, resourceName, effectName, brace, before, columnName, operator,
    value⟩ := h
  obtain ⟨lists, hfurther, hclose, hlater⟩ := hfinishes
  obtain ⟨w, hw⟩ := value.found hv lists
  exact ⟨_, (blocks_eq_ok_iff_of_passes blocksBefore word resourceName effectName brace before
    columnName operator).mpr ⟨w, _, _, _, _, _, hw, hfurther, hclose, hlater, rfl⟩⟩

/-! ## Scalars -/

/-- What a scalar may be read as. A year has four digits at most, and a time is whole. -/
inductive Legible : Value → Prop where
  | text (s : String) : Legible (.text s)
  | bool (b : Bool) : Legible (.bool b)
  | int (n : Int64) : Legible (.int n)
  | float (x : Binary64) : Legible (.float x)
  | date {d : Date} (year : 0 ≤ d.year ∧ d.year ≤ 9999) : Legible (.date d)
  | dateTime {t : DateTime} (year : 0 ≤ t.date.year ∧ t.date.year ≤ 9999)
    (whole : t.IsWhole) : Legible (.dateTime t)

section Scalars

variable {v : Value} {r : List Char}

theorem year_lt_of_calendarDay? {year month day : Nat}
    (h : calendarDay? cs = some ((year, month, day), rest)) : year < 10000 := by
  obtain ⟨⟨n, r⟩, hyear, h⟩ := Option.bind_eq_some_iff.mp h
  have hlt := lt_of_digits? hyear
  simp only [Option.bind_eq_bind, Option.bind_eq_some_iff] at h
  obtain ⟨_, -, _, -, _, -, _, -, hfound⟩ := h
  cases hfound
  exact hlt

theorem time?_legible (h : time? cs = some (some v, r)) : Legible v := by
  unfold time? at h
  split at h
  · cases h
  · next year month day rest hday =>
    have hlt := year_lt_of_calendarDay? hday
    have hrange {d : Date} (hd : Date.of? year month day = some d) :
        0 ≤ d.year ∧ d.year ≤ 9999 := by
      have hyear := (Date.of?_eq_some hd).1
      omega
    dsimp only at h
    split at h
    · obtain ⟨d, hd, rfl⟩ := Option.map_eq_some_iff.mp (Prod.mk.inj (Option.some.inj h)).1
      exact .date (hrange hd)
    · obtain ⟨d, hd, hclock⟩ := Option.bind_eq_some_iff.mp (Prod.mk.inj (Option.some.inj h)).1
      obtain ⟨t, ht, rfl⟩ := Option.map_eq_some_iff.mp hclock
      obtain ⟨rfl, whole⟩ := DateTime.ofClock?_eq_some ht
      exact .dateTime (hrange hd) whole

theorem negative?_legible (h : negative? cs = some (some v, r)) : Legible v := by
  unfold negative? at h
  split at h
  · split at h
    · cases h
    · split at h
      · obtain ⟨x, -, rfl⟩ := Option.map_eq_some_iff.mp (Prod.mk.inj (Option.some.inj h)).1
        exact .float x
      · obtain ⟨n, -, rfl⟩ := Option.map_eq_some_iff.mp (Prod.mk.inj (Option.some.inj h)).1
        exact .int n
  · cases h

theorem decimal?_legible (h : decimal? cs = some (some v, r)) : Legible v := by
  simp only [decimal?, Option.bind_eq_bind, Option.bind_eq_some_iff] at h
  obtain ⟨_, -, _, -, _, -, h⟩ := h
  obtain ⟨x, -, rfl⟩ := Option.map_eq_some_iff.mp (Prod.mk.inj (Option.some.inj h)).1
  exact .float x

theorem counting?_legible (h : counting? cs = some (some v, r)) : Legible v := by
  obtain ⟨⟨digits, rest⟩, -, h⟩ := Option.bind_eq_some_iff.mp h
  dsimp only at h
  split at h
  · cases h
  · obtain ⟨n, -, hfound⟩ := Option.bind_eq_some_iff.mp h
    cases hfound
    exact .int n

theorem integer?_legible (h : integer? cs = some (some v, r)) : Legible v := by
  unfold integer? at h
  split at h
  · cases h
    exact .int 0
  · exact counting?_legible h
  · exact counting?_legible h

theorem scalar?_legible (h : scalar? cs = some (some v, r)) : Legible v := by
  unfold scalar? at h
  split at h
  · obtain ⟨⟨s, rest⟩, -, hfound⟩ := Option.map_eq_some_iff.mp h
    cases hfound
    exact .text _
  · simp only [Option.or_eq_some_iff, Option.map_eq_some_iff] at h
    obtain ⟨rest, -, hfound⟩ | ⟨-, ⟨rest, -, hfound⟩ | ⟨-, h | ⟨-, h | ⟨-, h | ⟨-, h⟩⟩⟩⟩⟩ := h
    · cases hfound
      exact .bool true
    · cases hfound
      exact .bool false
    · exact time?_legible h
    · exact negative?_legible h
    · exact decimal?_legible h
    · exact integer?_legible h

end Scalars

/-- Only a bracket starts a list, and what is no list is a scalar. -/
theorem literal_eq_found {v : Value} (h : literal cs = .found v rest) :
    (∃ inner vs close, skip cs = '[' :: inner ∧ items inner = .ok (vs, close) ∧ v = .list vs) ∨
      Legible v := by
  cases hskip : skip cs with
  | nil =>
    rw [literal_eq, hskip] at h
    cases h
  | cons c inner =>
    by_cases hc : c = '['
    · subst hc
      obtain ⟨vs, close, hitems, -, hvs⟩ := literal_eq_found_of_bracket hskip h
      exact .inl ⟨inner, vs, close, rfl, hitems, hvs⟩
    · exact .inr (scalar?_legible (literal_eq_found_of_ne hskip hc h))

/-! ## Places of values -/

theorem exists_entersItems {i : Nat} {path : List Nat} {vs : List Value} {w v : Value}
    {close : List Char} (h : items cs = .ok (vs, close)) (hw : vs[i]? = some w)
    (hpath : ∀ {cs r}, literal cs = .found w r →
      ∃ rest after, Enters path cs rest ∧ literal rest = .found v after) :
    ∃ rest after, EntersItems (i :: path) cs rest ∧ literal rest = .found v after := by
  induction i generalizing cs vs with
  | zero =>
    obtain ⟨rfl, -⟩ | ⟨u, us, mid, rfl, hfound, -⟩ := items_eq_ok h
    · cases hw
    · cases hw
      obtain ⟨rest, after, henters, hv⟩ := hpath hfound
      exact ⟨rest, after, .first henters, hv⟩
  | succ i ih =>
    obtain ⟨rfl, -⟩ | ⟨u, us, mid, rfl, hfound, hfurther⟩ := items_eq_ok h
    · cases hw
    · rw [List.getElem?_cons_succ] at hw
      obtain ⟨rfl, -⟩ | ⟨next, hcomma, hitems⟩ := furtherItems_eq_ok hfurther
      · cases hw
      · obtain ⟨rest, after, henters, hv⟩ := ih hitems hw
        exact ⟨rest, after, .later hfound hcomma henters, hv⟩

theorem exists_enters {path : List Nat} {w v : Value} {r : List Char}
    (h : literal cs = .found w r) (hv : w.at? path = some v) :
    ∃ rest after, Enters path cs rest ∧ literal rest = .found v after := by
  induction path generalizing cs w r with
  | nil =>
    cases hv
    exact ⟨cs, r, .here, h⟩
  | cons i path ih =>
    obtain ⟨inner, vs, close, hbracket, hitems, rfl⟩ | hlegible := literal_eq_found h
    · obtain ⟨u, hu, hv⟩ := Option.bind_eq_some_iff.mp hv
      obtain ⟨rest, after, henters, hfound⟩ :=
        exists_entersItems hitems hu fun hfound => ih hfound hv
      exact ⟨rest, after, .list hbracket henters, hfound⟩
    · cases hlegible <;> cases hv

theorem exists_passes {read : List Char → Outcome α} (hwithin : ∀ cs, (read cs).Within cs)
    {as : List α} {i : Nat} {a : α} (h : many read cs = .ok (as, after)) (ha : as[i]? = some a) :
    ∃ before mid r, before.length = i ∧ Passes read before cs mid ∧ read mid = .found a r := by
  induction as generalizing i cs with
  | nil => cases ha
  | cons b as ih =>
    obtain ⟨mid, hfound, hmany⟩ := exists_found_of_many_cons (hwithin cs) h
    cases i with
    | zero =>
      cases ha
      exact ⟨[], cs, mid, rfl, .nil, hfound⟩
    | succ i =>
      rw [List.getElem?_cons_succ] at ha
      obtain ⟨before, last, r, rfl, hpasses, hread⟩ := ih hmany ha
      exact ⟨b :: before, last, r, rfl, .cons hfound hpasses, hread⟩

theorem exists_tokens_of_condition {c : Condition} (h : condition cs = .found c rest) :
    ∃ column token r₁ r₂, name? (skip cs) = some (column, r₁) ∧
      operator? (skip r₁) = some (token, r₂) ∧ literal r₂ = .found c.value rest := by
  unfold condition at h
  split at h
  · cases h
  · next column r₁ hcolumn =>
    split at h
    · cases h
    · next token r₂ htoken =>
      split at h
      · cases h
      · cases h
      · next v r₃ hv =>
        cases h
        exact ⟨column, token, r₁, r₂, hcolumn, htoken, hv⟩

theorem exists_tokens_of_block {b : String × Policy} (h : block cs = .found b rest) :
    ∃ resource effect r₁ r₂ r₃ inner close,
      literally? "policy".toList (skip cs) = some r₁ ∧
      name? (skip r₁) = some (resource, r₂) ∧ name? (skip r₂) = some (effect, r₃) ∧
      skip r₃ = '\x7b' :: inner ∧ many condition inner = .ok (b.2.conditions, close) := by
  unfold block at h
  split at h
  · cases h
  · next r₁ hword =>
    split at h
    · cases h
    · next resource r₂ hresource =>
      split at h
      · cases h
      · next effect r₃ heffect =>
        unfold body at h
        split at h
        · next inner hbrace =>
          split at h
          · cases h
          · next conditions close hmany =>
            split at h
            · cases h
              exact ⟨resource, effect, r₁, r₂, r₃, inner, close, hword, hresource, heffect, hbrace,
                hmany⟩
            · cases h
        · cases h

/-- Reading comes to each value that a text holds. -/
theorem Place.exists_reaches {p : Place} {text : List Char} {bs : List (String × Policy)}
    {v : Value} (hbs : blocks text = .ok bs) (hv : p.value? bs = some v) :
    ∃ rest after, p.Reaches text rest ∧ literal rest = .found v after := by
  obtain ⟨i, j, path⟩ := p
  obtain ⟨b, hb, hv⟩ := Option.bind_eq_some_iff.mp hv
  obtain ⟨c, hc, hv⟩ := Option.bind_eq_some_iff.mp hv
  obtain ⟨close, hblocks, -⟩ := blocks_eq_ok_iff.mp hbs
  obtain ⟨blocksBefore, r₀, _, rfl, hpasses, hblock⟩ := exists_passes block_within hblocks hb
  obtain ⟨resource, effect, r₁, r₂, r₃, inner, _, hword, hresource, heffect, hbrace, hmany⟩ :=
    exists_tokens_of_block hblock
  obtain ⟨before, r₅, _, rfl, hpasses', hcondition⟩ := exists_passes condition_within hmany hc
  obtain ⟨column, token, r₆, r₇, hcolumn, hoperator, hliteral⟩ :=
    exists_tokens_of_condition hcondition
  obtain ⟨rest, after, henters, hfound⟩ := exists_enters hliteral hv
  exact ⟨rest, after, .mk hpasses hword hresource heffect hbrace hpasses' hcolumn hoperator henters,
    hfound⟩

end PolicyText

end RowPolicy
