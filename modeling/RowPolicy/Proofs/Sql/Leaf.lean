import RowPolicy.Predicate.Sql
import RowPolicy.Proofs.Sql.Formula

/-!
# The texts of leaves

A column, an operator or a literal falls into tokens that a leaf takes as they come. No word among
them is AND or OR, and every parenthesis is closed; a text between quotes is one token, so nothing
in it counts. So whatever a leaf compares, it is read as one operand and keeps its text.
-/
namespace RowPolicy.Sql

/-! ## Parts of a leaf -/

/-- A text that a leaf may hold. -/
def IsPart (text : List Char) : Prop :=
  ∀ gap, Blank gap → ∃ ls, Lexes gap text ls ∧ Inert ls

/-- A text that a leaf may hold, and whose first token starts nothing but a leaf. -/
def IsLeaf (text : List Char) : Prop :=
  ∀ gap, Blank gap → ∃ l ls, Lexes gap text (l :: ls) ∧ Inert (l :: ls) ∧ StartsLeaf l

/-- A word that joins no operands. -/
structure IsPlainWord (cs : List Char) : Prop where
  ne_nil : cs ≠ []
  all_isNameChar : cs.all isNameChar = true
  not_and : Numeral.isWord "and" cs = false
  not_or : Numeral.isWord "or" cs = false

instance (cs : List Char) : Decidable (IsPlainWord cs) :=
  decidable_of_iff
    (cs ≠ [] ∧ cs.all isNameChar = true ∧ Numeral.isWord "and" cs = false ∧
      Numeral.isWord "or" cs = false)
    ⟨fun ⟨h, h', hand, hor⟩ => ⟨h, h', hand, hor⟩,
      fun ⟨h, h', hand, hor⟩ => ⟨h, h', hand, hor⟩⟩

theorem IsPlainWord.valid {cs : List Char} (h : IsPlainWord cs) : (Token.word cs).Valid :=
  .word h.ne_nil h.all_isNameChar

theorem IsPlainWord.endsOperand {cs : List Char} (h : IsPlainWord cs) (gap : List Char) :
    Lexeme.endsOperand ⟨gap, .word cs⟩ = false := by
  simp [Lexeme.endsOperand, h.not_and, h.not_or]

/-- A mark that is no parenthesis. -/
def IsPlainMark (c : Char) : Prop :=
  isNameChar c = false ∧ c.isWhitespace = false ∧ c ∉ ['\'', '(', ')']

instance (c : Char) : Decidable (IsPlainMark c) := inferInstanceAs (Decidable (_ ∧ _))

theorem IsPlainMark.valid {c : Char} (h : IsPlainMark c) : (Token.mark c).Valid := by
  have hquote : c ≠ '\'' := List.ne_of_not_mem_cons h.2.2
  exact .mark h.1 h.2.1 hquote

theorem IsPlainMark.inert {c : Char} (h : IsPlainMark c) (gap : List Char) :
    Inert [⟨gap, .mark c⟩] := by
  have hparens : c ≠ '(' ∧ c ≠ ')' := by
    have hmem := h.2.2
    simp_all
  apply Inert.singleton
  · simp [Lexeme.endsOperand, hparens]
  · simp [hparens]

namespace IsPart

variable {s t : List Char}

theorem word (h : IsPlainWord s) : IsPart s := by
  intro gap hgap
  exact ⟨_, Lexes.token hgap h.valid, .singleton (h.endsOperand gap) rfl⟩

theorem quoted (s : List Char) : IsPart (Value.quoted s) := by
  intro gap hgap
  exact ⟨_, Lexes.token hgap (.quoted s), .singleton rfl rfl⟩

theorem mark {c : Char} (h : IsPlainMark c) : IsPart [c] := by
  intro gap hgap
  exact ⟨_, Lexes.token hgap h.valid, h.inert gap⟩

theorem cons_mark {c : Char} (h : IsPlainMark c) (hs : IsPart s) : IsPart (c :: s) := by
  intro gap hgap
  obtain ⟨ls, hlexes, hinert⟩ := hs [] blank_nil
  exact ⟨_, hlexes.cons_mark hgap h.valid, (h.inert gap).append hinert⟩

theorem append_mark {c : Char} (hs : IsPart s) (h : IsPlainMark c) : IsPart (s ++ [c]) := by
  intro gap hgap
  obtain ⟨ls, hlexes, hinert⟩ := hs gap hgap
  exact ⟨_, hlexes.append_mark h.valid, hinert.append (h.inert [])⟩

theorem append_blank (hs : IsPart s) (ht : IsPart t) : IsPart (s ++ ' ' :: t) := by
  intro gap hgap
  obtain ⟨ls, hlexes, hinert⟩ := hs gap hgap
  obtain ⟨ls', hlexes', hinert'⟩ := ht [' '] blank_space
  exact ⟨_, hlexes.append_blank hlexes', hinert.append hinert'⟩

theorem parens (hs : IsPart s) : IsPart ('(' :: s ++ [')']) := by
  intro gap hgap
  obtain ⟨ls, hlexes, hinert⟩ := hs [] blank_nil
  exact ⟨_, hlexes.parens hgap, hinert.parens gap []⟩

end IsPart

namespace IsLeaf

variable {s t : List Char}

theorem word (h : IsPlainWord s) (hnot : Numeral.isWord "not" s = false) : IsLeaf s := by
  intro gap hgap
  have hends := h.endsOperand gap
  exact ⟨_, [], Lexes.token hgap h.valid, .singleton hends rfl, hnot, rfl, hends⟩

theorem append_blank (hs : IsLeaf s) (ht : IsPart t) : IsLeaf (s ++ ' ' :: t) := by
  intro gap hgap
  obtain ⟨l, ls, hlexes, hinert, hl⟩ := hs gap hgap
  obtain ⟨ls', hlexes', hinert'⟩ := ht [' '] blank_space
  exact ⟨l, ls ++ ls', hlexes.append_blank hlexes', hinert.append hinert', hl⟩

/-- A word and what follows it without a blank. -/
theorem word_mark {c : Char} {ls : List Lexeme} (h : IsPlainWord s)
    (hnot : Numeral.isWord "not" s = false) (hlexes : Lexes [] t (⟨[], .mark c⟩ :: ls))
    (hinert : Inert (⟨[], .mark c⟩ :: ls)) : IsLeaf (s ++ t) := by
  intro gap hgap
  have hends := h.endsOperand gap
  have hjoin := (Lexes.token hgap h.valid).append hlexes fun l _ m hm => by
    obtain rfl : ⟨[], .mark c⟩ = m := by simpa using hm
    exact .inr (.inr rfl)
  rw [List.append_nil] at hjoin
  exact ⟨_, _, hjoin, (Inert.singleton hends rfl).append hinert, hnot, rfl, hends⟩

/-- A name with what it takes in parentheses. -/
theorem call (h : IsPlainWord s) (hnot : Numeral.isWord "not" s = false) (ht : IsPart t) :
    IsLeaf (s ++ ('(' :: t ++ [')'])) := by
  obtain ⟨ls, hlexes, hinert⟩ := ht [] blank_nil
  exact word_mark h hnot (hlexes.parens blank_nil) (hinert.parens [] [])

theorem equation (h : IsPlainWord s) (hnot : Numeral.isWord "not" s = false) (ht : IsPart t) :
    IsLeaf (s ++ '=' :: t) := by
  have heq : IsPlainMark '=' := by decide
  obtain ⟨ls, hlexes, hinert⟩ := ht [] blank_nil
  exact word_mark h hnot (hlexes.cons_mark blank_nil heq.valid) ((heq.inert []).append hinert)

end IsLeaf

/-! ## Numbers -/

theorem isNameChar_of_isDigit {c : Char} (h : Numeral.isDigit c = true) : isNameChar c = true := by
  simp [isNameChar, Char.isAlphanum, ← Numeral.isDigit_eq, h]

/-- Digits, perhaps with a point among them. -/
structure IsFigure (cs : List Char) : Prop where
  ne_nil : cs ≠ []
  isDigit : ∀ c ∈ cs, Numeral.isDigit c = true ∨ c = '.'

theorem IsFigure.isPlainWord {cs : List Char} (h : IsFigure cs) : IsPlainWord cs := by
  obtain ⟨c, hc⟩ := List.exists_mem_of_ne_nil cs h.ne_nil
  have hother (word : String) (hword : ∀ d ∈ word.toList, Numeral.isDigit d = false ∧ d ≠ '.') :
      Numeral.isWord word cs = false := by
    refine Numeral.isWord_eq_false hc fun hmem => ?_
    rcases h.isDigit c hc with hdigit | rfl
    · rw [Numeral.toLower_of_isDigit hdigit] at hmem
      rw [(hword c hmem).1] at hdigit
      cases hdigit
    · exact (hword '.' hmem).2 rfl
  refine ⟨h.ne_nil, List.all_eq_true.mpr fun d hd => ?_, hother "and" (by simp [Numeral.isDigit]),
    hother "or" (by simp [Numeral.isDigit])⟩
  rcases h.isDigit d hd with hdigit | rfl
  · exact isNameChar_of_isDigit hdigit
  · rfl

theorem isPart_minusIf {cs : List Char} (h : IsPart cs) (negative : Bool) :
    IsPart (Numeral.minusIf negative ++ cs) := by
  cases negative with
  | true => exact h.cons_mark (by decide)
  | false => exact h

theorem isPart_decimal (n : Int) : IsPart (Numeral.decimal n).toList := by
  rw [Numeral.toList_decimal]
  refine isPart_minusIf (.word (IsFigure.isPlainWord ⟨Nat.toDigits_ne_nil, fun c hc => ?_⟩)) _
  exact .inl (Numeral.isDigit_of_mem_toDigits hc)

theorem isFigure_plain (x : Binary64.Decimal) : IsFigure x.plain.toList := by
  have hdigits {c : Char} (h : c ∈ Nat.toDigits 10 x.digits) : Numeral.isDigit c = true :=
    Numeral.isDigit_of_mem_toDigits h
  have hzeros {c : Char} {n : Nat} (h : c ∈ List.replicate n '0') : Numeral.isDigit c = true := by
    rw [List.eq_of_mem_replicate h]
    rfl
  unfold Binary64.Decimal.plain
  split
  · constructor
    · simp [Nat.toDigits_ne_nil]
    · simp only [String.toList_ofList, List.mem_append]
      rintro c (hc | hc)
      · exact .inl (hdigits hc)
      · exact .inl (hzeros hc)
  · constructor
    · simp
    · simp only [String.toList_ofList, List.mem_append, List.mem_cons]
      rintro c (hc | rfl | hc)
      · rcases List.mem_append.mp (List.mem_of_mem_take hc) with hc | hc
        · exact .inl (hzeros hc)
        · exact .inl (hdigits hc)
      · exact .inr rfl
      · rcases List.mem_append.mp (List.mem_of_mem_drop hc) with hc | hc
        · exact .inl (hzeros hc)
        · exact .inl (hdigits hc)

theorem isPart_plain (x : Binary64) : IsPart x.plain.toList := by
  have hsign : (if x.isNegative then "-" else "").toList = Numeral.minusIf x.isNegative := by
    cases x.isNegative <;> rfl
  unfold Binary64.plain
  split
  · exact .word (by decide)
  · dsimp only
    split
    · rw [String.toList_append, hsign]
      exact isPart_minusIf (.word (by decide)) _
    · split
      · rw [String.toList_append, hsign]
        exact isPart_minusIf (.word (by decide)) _
      · rw [String.toList_append, hsign]
        exact isPart_minusIf (.word (isFigure_plain x.shortest).isPlainWord) _

/-! ## Values -/

theorem isPlainMark_comma : IsPlainMark ',' := by decide

theorem isPart_nil : IsPart "()".toList := by
  intro gap hgap
  have hopen := Lexes.token hgap (.mark (c := '(') rfl rfl (by decide))
  have hclose := hopen.append_mark (.mark (c := ')') rfl rfl (by decide))
  have hnil : Inert [] := fun depth rest => rfl
  exact ⟨_, hclose, hnil.parens gap []⟩

mutual

theorem isPart_literal (v : Value) : IsPart v.literalChars := by
  match v with
  | .int n => exact isPart_decimal n.toInt
  | .float x => exact isPart_plain x
  | .bool true => exact .word (by decide)
  | .bool false => exact .word (by decide)
  | .date d => exact .quoted d.text
  | .dateTime t => exact .quoted t.text
  | .text s => exact .quoted s.toList
  | .list [] => exact isPart_nil
  | .list (v :: vs) => exact (isPart_items (v :: vs) (by simp)).parens

theorem isPart_items (vs : List Value) (hne : vs ≠ []) : IsPart (Value.itemsChars vs) := by
  match vs with
  | [] => exact absurd rfl hne
  | [v] => exact isPart_literal v
  | v :: w :: vs =>
    have hcomma := (isPart_literal v).append_mark isPlainMark_comma
    simpa [Value.itemsChars] using hcomma.append_blank (isPart_items (w :: vs) (by simp))

end

/-! ## Columns and operators -/

theorem isPart_operator (op : Operator) : IsPart op.sql.toList := by
  have heq : IsPlainMark '=' := by decide
  have hbang : IsPlainMark '!' := by decide
  have hgt : IsPlainMark '>' := by decide
  have hlt : IsPlainMark '<' := by decide
  have hin : IsPart "IN".toList := .word (by decide)
  have hnot : IsPart "NOT".toList := .word (by decide)
  have hlike : IsPart "ILIKE".toList := .word (by decide)
  cases op with
  | eq | eqAny => exact .mark heq
  | notEq => exact .cons_mark hbang (.mark heq)
  | gt => exact .mark hgt
  | gteq => exact .cons_mark hgt (.mark heq)
  | lt => exact .mark hlt
  | lteq => exact .cons_mark hlt (.mark heq)
  | isIn => exact hin
  | notIn => exact hnot.append_blank hin
  | isLike => exact hlike
  | notLike => exact hnot.append_blank hlike

end RowPolicy.Sql

namespace RowPolicy

/-- The names of the table and the column are made of letters, digits, underscores and points. -/
def Column.IsPlain (c : Column) : Prop :=
  (c.table.toList ++ c.name.toList).all Sql.isNameChar = true

instance (c : Column) : Decidable c.IsPlain := inferInstanceAs (Decidable (_ = _))

namespace Sql

theorem isLeaf_column {c : Column} (h : c.IsPlain) : IsLeaf c.sql.toList := by
  have hpoint {word : String} (hword : '.' ∉ word.toList) :
      Numeral.isWord word (c.table ++ "." ++ c.name).toList = false :=
    Numeral.isWord_eq_false (c := '.') (by simp) hword
  have hplain : IsPlainWord (c.table ++ "." ++ c.name).toList := by
    have hpoint' : isNameChar '.' = true := rfl
    refine ⟨by simp, ?_, hpoint (by decide), hpoint (by decide)⟩
    simpa [Column.IsPlain, hpoint'] using h
  unfold Column.sql
  split
  · have hdate : IsPart "AS DATE".toList :=
      .append_blank (s := "AS".toList) (t := "DATE".toList)
        (.word (by decide))
        (.word (by decide))
    have hcast : IsPlainWord "CAST".toList := by decide
    have hcall := IsLeaf.call hcast (by decide) ((IsPart.word hplain).append_blank hdate)
    simpa using hcall
  · exact .word hplain (hpoint (by decide))

end Sql

end RowPolicy
