import RowPolicy.Proofs.PolicyText.Completeness
import RowPolicy.Proofs.PolicyText.Surroundings

/-!
# The canonical spelling

Whatever a text holds can be written again in one way: block after block with the word for its
effect, texts with escapes, and a blank between any two tokens. This reads back as the same blocks,
since reading finds nothing that cannot be written: names and operators are words or symbols again,
a year has four digits at most, and a time is whole.

Doubles are left out. The main statement is `parse_canonical`; `exists_text_iff` says that blocks
without doubles are what some text holds if and only if they are of this kind.
-/
namespace RowPolicy.PolicyText

/-! ## Spelling -/

def escaped (c : Char) : List Char :=
  if c = '"' then ['\\', '"']
  else if c = '\\' then ['\\', '\\']
  else if c = '\n' then ['\\', 'n']
  else if c = '\t' then ['\\', 't']
  else [c]

mutual

/-- A double is written as in a query, which may leave out its point. -/
def valueTokens : Value → List (List Char)
  | .int n => [(Numeral.decimal n.toInt).toList]
  | .float x => [x.plain.toList]
  | .bool b => [if b then "true".toList else "false".toList]
  | .date d => [d.text]
  | .dateTime t => [t.date.text ++ 'T' :: t.clockText]
  | .text s => ['"' :: ((s.toList.map escaped).flatten ++ ['"'])]
  | .list [] => [['['], [']']]
  | .list (v :: vs) => ['['] :: (valueTokens v ++ (furtherTokens vs ++ [[']']]))

def furtherTokens : List Value → List (List Char)
  | [] => []
  | v :: vs => [','] :: (valueTokens v ++ furtherTokens vs)

end

def conditionTokens (c : Condition) : List (List Char) :=
  c.column.toList :: c.predicate.toList :: valueTokens c.value

def blockTokens (b : String × Policy) : List (List Char) :=
  "policy".toList :: b.1.toList :: b.2.effect.token.toList :: ['\x7b'] ::
    ((b.2.conditions.map conditionTokens).flatten ++ [['\x7d']])

/-- Block after block, with a blank between any two tokens. -/
def canonical (bs : List (String × Policy)) : String :=
  String.ofList ([' '].intercalate (bs.map blockTokens).flatten)

/-- Blocks that can be written, apart from doubles. -/
structure Expressible (bs : List (String × Policy)) : Prop where
  resource : ∀ b ∈ bs, IsName b.1.toList
  column : ∀ b ∈ bs, ∀ c ∈ b.2.conditions, IsName c.column.toList
  predicate : ∀ b ∈ bs, ∀ c ∈ b.2.conditions, IsOperator c.predicate
  date : ∀ (p : Place) (d : Date), p.value? bs = some (.date d) → 0 ≤ d.year ∧ d.year ≤ 9999
  dateTime : ∀ (p : Place) (t : DateTime), p.value? bs = some (.dateTime t) →
    (0 ≤ t.date.year ∧ t.date.year ≤ 9999) ∧ t.IsWhole

/-- No value is a double, in whatever list it is. -/
def Floatless (bs : List (String × Policy)) : Prop :=
  ∀ (p : Place) (x : Binary64), p.value? bs ≠ some (.float x)

variable {cs rest : List Char} {v : Value} {bs : List (String × Policy)}

/-! ## What is read can be written -/

theorem isName_of_name? {name : List Char} (h : name? cs = some (name, rest)) : IsName name := by
  unfold name? at h
  split at h
  · cases h
  · next c cs =>
    obtain ⟨hc, hfound⟩ := Option.ite_none_right_eq_some.mp h
    cases hfound
    exact ⟨c, _, rfl, hc, fun d hd => List.mem_takeWhile_imp hd⟩

theorem isOperator_of_operator? {token : List Char} (h : operator? cs = some (token, rest)) :
    IsOperator (String.ofList token) := by
  unfold operator? at h
  split at h
  · cases h
    exact .inl ⟨.gteq, rfl⟩
  · cases h
    exact .inl ⟨.gt, rfl⟩
  · cases h
    exact .inl ⟨.lteq, rfl⟩
  · cases h
    exact .inl ⟨.lt, rfl⟩
  · cases h
    exact .inl ⟨.eq, rfl⟩
  · cases h
    exact .inl ⟨.notEq, rfl⟩
  · obtain ⟨hne, hfound⟩ := Option.ite_none_left_eq_some.mp h
    cases hfound
    refine .inr ⟨by simpa using hne, fun c hc => ?_⟩
    rw [String.toList_ofList] at hc
    exact List.mem_takeWhile_imp hc

theorem forall_of_many {α : Type} {read : List Char → Outcome α} {P : α → Prop} {as : List α}
    (hwithin : ∀ cs, (read cs).Within cs)
    (hread : ∀ {cs rest a}, read cs = .found a rest → P a)
    (h : many read cs = .ok (as, rest)) : ∀ a ∈ as, P a := by
  intro a ha
  obtain ⟨i, hi⟩ := List.mem_iff_getElem?.mp ha
  obtain ⟨_, _, _, -, -, hfound⟩ := exists_passes hwithin h hi
  exact hread hfound

theorem expressible_condition {c : Condition} (h : condition cs = .found c rest) :
    IsName c.column.toList ∧ IsOperator c.predicate := by
  obtain ⟨column, token, r₁, r₂, hcolumn, htoken, -⟩ := exists_tokens_of_condition h
  obtain ⟨v, -, rfl⟩ := (condition_eq_found_iff hcolumn htoken).mp h
  exact ⟨by simpa using isName_of_name? hcolumn, isOperator_of_operator? htoken⟩

theorem expressible_block {b : String × Policy} (h : block cs = .found b rest) :
    IsName b.1.toList ∧ ∀ c ∈ b.2.conditions, IsName c.column.toList ∧ IsOperator c.predicate := by
  obtain ⟨resource, effect, r₁, r₂, r₃, inner, close, hword, hresource, heffect, hbrace, hmany⟩ :=
    exists_tokens_of_block h
  obtain ⟨_, _, -, -, rfl⟩ := (block_eq_found_iff hword hresource heffect hbrace).mp h
  exact ⟨by simpa using isName_of_name? hresource,
    forall_of_many condition_within expressible_condition hmany⟩

theorem legible_of_blocks {p : Place} (h : blocks cs = .ok bs) (hv : p.value? bs = some v)
    (hlist : ∀ vs, v ≠ .list vs) : Legible v := by
  obtain ⟨_, _, -, hfound⟩ := p.exists_reaches h hv
  obtain ⟨_, vs, _, -, -, rfl⟩ | hlegible := literal_eq_found hfound
  · exact absurd rfl (hlist vs)
  · exact hlegible

theorem expressible_of_blocks (h : blocks cs = .ok bs) : Expressible bs := by
  obtain ⟨_, hmany, -⟩ := blocks_eq_ok_iff.mp h
  have hblock := forall_of_many block_within expressible_block hmany
  refine ⟨fun b hb => (hblock b hb).1, fun b hb c hc => ((hblock b hb).2 c hc).1,
    fun b hb c hc => ((hblock b hb).2 c hc).2, fun p d hd => ?_, fun p t ht => ?_⟩
  · cases legible_of_blocks h hd nofun with
    | date year => exact year
  · cases legible_of_blocks h ht nofun with
    | dateTime year whole => exact ⟨year, whole⟩

/-! ## What can be written -/

theorem quoted_escaped (c : Char) : Quoted c (escaped c) := by
  unfold escaped
  split
  · next h => exact h ▸ .quote
  split
  · next h => exact h ▸ .backslash
  split
  · next h => exact h ▸ .newline
  split
  · next h => exact h ▸ .tab
  · next hquote hslash _ _ => exact .plain ⟨hquote, hslash⟩

theorem Legible.written (h : Legible v) (hfloat : ∀ x, v ≠ .float x) :
    Written v (valueTokens v) := by
  cases h with
  | text s =>
    refine .scalar (.text (List.forall₂_map_right_iff.mpr ?_))
    exact List.forall₂_same.mpr fun c _ => quoted_escaped c
  | bool b =>
    cases b with
    | false => exact .scalar .isFalse
    | true => exact .scalar .isTrue
  | int n =>
    rw [valueTokens, Numeral.toList_decimal]
    exact .scalar (.int _ (Numeral.negateIf_natAbs _))
  | float x => exact absurd rfl (hfloat x)
  | date year => exact .scalar (.date year)
  | dateTime year whole => exact .scalar (.dateTime year whole)

mutual

/-- A value is written if everything in it that is no list is. -/
theorem written_of_leaves {v : Value} (h : ∀ path w, v.at? path = some w →
    (∀ vs, w ≠ .list vs) → Written w (valueTokens w)) : Written v (valueTokens v) := by
  match v with
  | .list [] => exact .nil
  | .list (v :: vs) =>
    -- A path into an item goes on from the item's index in the list.
    exact .list (written_of_leaves fun path => h (0 :: path))
      (writtenItems_of_leaves fun i path => h ((i + 1) :: path))
  | .int _ | .float _ | .bool _ | .date _ | .dateTime _ | .text _ => exact h [] _ rfl nofun

theorem writtenItems_of_leaves {vs : List Value} (h : ∀ i path w,
    (Value.list vs).at? (i :: path) = some w → (∀ vs, w ≠ .list vs) → Written w (valueTokens w)) :
    WrittenItems vs (furtherTokens vs) := by
  match vs with
  | [] => exact .nil
  | v :: vs =>
    exact .cons (written_of_leaves fun path => h 0 path)
      (writtenItems_of_leaves fun i => h (i + 1))

end

theorem Layout.space {tokens : List (List Char)} {text : List Char} (h : Layout tokens text) :
    Layout tokens (' ' :: text) := by
  cases h with
  | done hgap => exact .done (.space rfl hgap)
  | token hgap apart next => exact .token (.space rfl hgap) apart next

theorem layout_intercalate (tokens : List (List Char)) :
    Layout tokens ([' '].intercalate tokens) := by
  induction tokens with
  | nil => exact .done .nil
  | cons token tokens ih =>
    cases tokens with
    | nil =>
      have hlast : Layout [token] ([] ++ (token ++ [])) := .token .nil (by simp [Apart]) (.done .nil)
      simpa using hlast
    | cons next tokens =>
      have hblank : isNameChar ' ' = false := rfl
      have apart : Apart token (' ' :: [' '].intercalate (next :: tokens)) := by
        simp [Apart, hblank]
      have hlayout := Layout.token .nil apart ih.space
      simpa using hlayout

/-- The places in a condition of a block. -/
theorem exists_value?_eq {b : String × Policy} {c : Condition} (hb : b ∈ bs)
    (hc : c ∈ b.2.conditions) :
    ∃ i j, ∀ path, Place.value? ⟨i, j, path⟩ bs = c.value.at? path := by
  obtain ⟨i, hi⟩ := List.mem_iff_getElem?.mp hb
  obtain ⟨j, hj⟩ := List.mem_iff_getElem?.mp hc
  exact ⟨i, j, fun path => by simp [Place.value?, hi, hj]⟩

namespace Expressible

theorem legible (h : Expressible bs) {p : Place} (hv : p.value? bs = some v)
    (hlist : ∀ vs, v ≠ .list vs) : Legible v := by
  cases v with
  | int n => exact .int n
  | float x => exact .float x
  | bool b => exact .bool b
  | date d => exact .date (h.date p d hv)
  | dateTime t => exact .dateTime (h.dateTime p t hv).1 (h.dateTime p t hv).2
  | text s => exact .text s
  | list vs => exact absurd rfl (hlist vs)

theorem writtenCondition (h : Expressible bs) (hfloat : Floatless bs) {b : String × Policy}
    {c : Condition} (hb : b ∈ bs) (hc : c ∈ b.2.conditions) :
    WrittenCondition c (conditionTokens c) := by
  refine .mk (h.column b hb c hc) (h.predicate b hb c hc) (written_of_leaves fun path w hw => ?_)
  obtain ⟨i, j, hplace⟩ := exists_value?_eq hb hc
  have hvalue : Place.value? ⟨i, j, path⟩ bs = some w := (hplace path).trans hw
  intro hlist
  refine (h.legible hvalue hlist).written fun x hx => ?_
  exact hfloat ⟨i, j, path⟩ x (hx ▸ hvalue)

theorem writtenBlock (h : Expressible bs) (hfloat : Floatless bs) {b : String × Policy}
    (hb : b ∈ bs) : WrittenBlock b (blockTokens b) := by
  obtain ⟨resource, effect, conditions⟩ := b
  have heffect : IsName effect.token.toList := by
    cases effect with
    | allow => exact ⟨'a', "llow".toList, rfl, rfl, List.all_eq_true.mp rfl⟩
    | deny => exact ⟨'d', "eny".toList, rfl, rfl, List.all_eq_true.mp rfl⟩
  have hresolved : effect = .deny ↔ effect.token = "deny" := by
    cases effect <;> simp [Effect.token]
  refine .mk (h.resource _ hb) heffect hresolved (List.forall₂_map_right_iff.mpr ?_)
  exact List.forall₂_same.mpr fun c hc => h.writtenCondition hfloat hb hc

theorem spells (h : Expressible bs) (hfloat : Floatless bs) : Spells (canonical bs) bs := by
  have written : List.Forall₂ WrittenBlock bs (bs.map blockTokens) := by
    refine List.forall₂_map_right_iff.mpr (List.forall₂_same.mpr ?_)
    intro b hb
    exact h.writtenBlock hfloat hb
  refine ⟨bs.map blockTokens, written, ?_⟩
  rw [canonical, String.toList_ofList]
  exact layout_intercalate _

theorem parse_canonical_eq (h : Expressible bs) (hfloat : Floatless bs) :
    parse (canonical bs) = .ok bs := by
  obtain ⟨tokens, written, layout⟩ := h.spells hfloat
  exact parse_eq_ok_iff.mpr (blocks_written written layout)

end Expressible

/-! ## Whole texts -/

/-- A text without doubles holds only what can be written. The canonical spelling is a spelling of
what it holds, and is read as the same blocks. -/
theorem parse_canonical {text : String} (h : parse text = .ok bs) (hfloat : Floatless bs) :
    Expressible bs ∧ Spells (canonical bs) bs ∧ parse (canonical bs) = .ok bs := by
  have hexpressible := expressible_of_blocks (parse_eq_ok_iff.mp h)
  exact ⟨hexpressible, hexpressible.spells hfloat, hexpressible.parse_canonical_eq hfloat⟩

/-- The word for the effect, the plus and the escape that is none are not kept as they stand. -/
theorem parse_canonical_leap :
    let text := "policy x.y block\x7b#\n _a in[[],+7,\"\\q\\\"\"]at==2016-12-31T23:59:60\x7d"
    let day : Date := ⟨2016, 12, 31, by decide, by decide, by decide⟩
    let leap : DateTime := ⟨day, 23, 59, 59, 1000000000, by decide, by decide, by decide, by decide⟩
    let items : List Value := [.list [], .int 7, .text "\\q\""]
    let bs : List (String × Policy) :=
      [("x.y", ⟨.allow, [⟨"_a", "in", .list items⟩, ⟨"at", "==", .dateTime leap⟩]⟩)]
    let spelling :=
      "policy x.y allow \x7b _a in [ [ ] , 7 , \"\\\\q\\\"\" ] at == 2016-12-31T23:59:60 \x7d"
    (parse text = .ok bs ∧ Floatless bs) ∧ canonical bs = spelling ∧
      Expressible bs ∧ Spells (canonical bs) bs ∧ parse (canonical bs) = .ok bs := by
  intro text day leap items bs spelling
  have hparse : parse text = .ok bs := by
    unfold text
    cbv
  have hfloat : Floatless bs := by
    rintro ⟨i, j, path⟩ x h
    rcases i with _ | i
    · rcases j with _ | _ | j
      · rcases path with _ | ⟨_ | _ | _ | k, _ | ⟨l, path⟩⟩ <;> cases h
      · rcases path with _ | ⟨k, path⟩ <;> cases h
      · cases h
    · cases h
  have hspelling : canonical bs = spelling := by decide +kernel
  exact ⟨⟨hparse, hfloat⟩, hspelling, parse_canonical hparse hfloat⟩

/-- Without doubles the blocks that texts hold are those that can be written. -/
theorem exists_text_iff (hfloat : Floatless bs) :
    (∃ text, parse text = .ok bs) ↔ Expressible bs := by
  constructor
  · rintro ⟨text, h⟩
    exact expressible_of_blocks (parse_eq_ok_iff.mp h)
  · intro h
    exact ⟨canonical bs, h.parse_canonical_eq hfloat⟩

end RowPolicy.PolicyText
