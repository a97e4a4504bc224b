import RowPolicy.Proofs.Shape
import RowPolicy.Proofs.Sql.Leaf

/-!
# Written filters keep their structure

A filter is written with few parentheses: around groups, around alternatives in a conjunction,
around what is negated, and around the equalities of a list of values. These are enough. Read by
the precedence of the connectives, the text is a formula over the texts of the leaves that has the
truth of the tree, whatever is true of those texts: `formula?_sql`.

Every tree is read as alternatives. One that is no alternative is also read as a conjunction, so it
may stand in one without parentheses; a group is read as an operand, so it may stand behind NOT.
-/
namespace RowPolicy

namespace Sql

/-! ## Pieces of a condition -/

/-- Behind any blanks the text falls into tokens that are read as the kind says. -/
def Reads (kind : List Lexeme → Meaning → Prop) (text : String) (f : Meaning) : Prop :=
  ∀ gap, Blank gap → ∃ ls, Lexes gap text.toList ls ∧ kind ls f

theorem Lexes.textOf_eq {gap text : List Char} {ls : List Lexeme} (h : Lexes gap text ls) :
    textOf ls = String.ofList text := by
  obtain ⟨t, tail, rfl⟩ := h.head
  have hvalid := h.valid ⟨gap, t⟩ (by simp)
  obtain ⟨c, cs, hcons, hc⟩ := hvalid.token.head
  have htext : text = t.text ++ tail.flatMap Lexeme.text := by
    have hflat := h.flatMap_text
    simpa [Lexeme.text] using hflat.symm
  have hsolid : ∀ d ∈ text.head?, d.isWhitespace = false := by
    simpa [htext, hcons] using hc
  rw [textOf, h.flatMap_text, (span_append hvalid.gap hsolid).2]

/-- A text with a blank in it is no constant. -/
theorem Formula.truth_ofText {text : String} (h : ' ' ∈ text.toList) :
    (ofText text).truth = fun leaf => leaf text := by
  have hne (other : String) (hblank : ' ' ∉ other.toList) : text ≠ other := by
    rintro rfl
    exact hblank h
  simp [ofText, hne "1=1" (by decide), hne "TRUE" (by decide), hne "1=0" (by decide), truth]

theorem IsLeaf.reads {text : String} (h : IsLeaf text.toList) :
    Reads IsOperand text (Formula.ofText text).truth := by
  intro gap hgap
  obtain ⟨l, ls, hlexes, hinert, hl⟩ := h gap hgap
  have hread := isOperand_leaf hinert hl
  rw [hlexes.textOf_eq, String.ofList_toList] at hread
  exact ⟨_, hlexes, hread⟩

theorem IsLeaf.reads_leaf {text : String} (h : IsLeaf text.toList) (hblank : ' ' ∈ text.toList) :
    Reads IsOperand text fun leaf => leaf text := by
  rw [← Formula.truth_ofText hblank]
  exact h.reads

namespace Reads

variable {s t : String} {f g : Meaning}

variable {kind kind' : List Lexeme → Meaning → Prop}

theorem mono (h : Reads kind s f) (hkind : ∀ ls, ls ≠ [] → kind ls f → kind' ls f) :
    Reads kind' s f := by
  intro gap hgap
  obtain ⟨ls, hlexes, hread⟩ := h gap hgap
  exact ⟨ls, hlexes, hkind ls hlexes.ne_nil hread⟩

theorem isConjunction (h : Reads IsOperand s f) : Reads IsConjunction s f :=
  h.mono fun _ hne hread => hread.isConjunction hne

theorem isAlternatives (h : Reads IsConjunction s f) : Reads IsAlternatives s f :=
  h.mono fun _ hne hread => hread.isAlternatives hne

/-- Two pieces with a word between them, where tokens that are so joined read as one piece. -/
theorem join {word : List Char} {text : String} {fg : Meaning} (hword : (Token.word word).Valid)
    (htext : text.toList = s.toList ++ ' ' :: (word ++ ' ' :: t.toList))
    (hkind : ∀ ls ls', kind ls f → kind ls' g → kind (ls ++ ⟨[' '], .word word⟩ :: ls') fg)
    (h : Reads kind s f) (h' : Reads kind t g) : Reads kind text fg := by
  intro gap hgap
  obtain ⟨ls, hlexes, hread⟩ := h gap hgap
  obtain ⟨ls', hlexes', hread'⟩ := h' [' '] blank_space
  rw [htext]
  exact ⟨_, hlexes.append_word hword hlexes', hkind ls ls' hread hread'⟩

theorem parenthesized (h : Reads IsAlternatives s f) :
    Reads IsOperand (Predicate.parenthesized s) f := by
  intro gap hgap
  obtain ⟨ls, hlexes, hread⟩ := h [] blank_nil
  refine ⟨_, ?_, hread.parens gap []⟩
  simpa [Predicate.parenthesized] using hlexes.parens hgap

theorem not (h : Reads IsOperand s f) :
    Reads IsOperand ("NOT " ++ s) fun leaf => (f leaf).not := by
  intro gap hgap
  obtain ⟨ls, hlexes, hread⟩ := h [' '] blank_space
  have hword : (Token.word "NOT".toList).Valid := .word (by decide) (by decide)
  have hjoin := (Lexes.token hgap hword).append_blank hlexes
  exact ⟨_, by simpa [Token.text] using hjoin, hread.not (by decide)⟩

theorem and (h : Reads IsConjunction s f) (h' : Reads IsConjunction t g) :
    Reads IsConjunction (s ++ " AND " ++ t) fun leaf => (f leaf).and (g leaf) := by
  have hword : (Token.word "AND".toList).Valid := .word (by decide) (by decide)
  exact join hword (by simp) (fun ls ls' hread hread' => hread.and hread' (by decide)) h h'

theorem or (h : Reads IsAlternatives s f) (h' : Reads IsAlternatives t g) :
    Reads IsAlternatives (s ++ " OR " ++ t) fun leaf => (f leaf).or (g leaf) := by
  have hword : (Token.word "OR".toList).Valid := .word (by decide) (by decide)
  exact join hword (by simp) (fun ls ls' hread hread' => hread.or hread' (by decide)) h h'

end Reads

theorem formula?_of_reads {text : String} {f : Meaning} (h : Reads IsAlternatives text f) :
    ∃ a, formula? text = some a ∧ ∀ leaf, a.truth leaf = f leaf := by
  obtain ⟨ls, hlexes, as, has, hread⟩ := h [] blank_nil
  have hls : lexemes? text.toList = some ls := by
    rw [← lexemes?_flatMap hlexes.valid hlexes.joint, hlexes.flatMap_text, List.nil_append]
  have has' := hread [] (by simp [EndsConjunction])
  refine ⟨.any as, ?_, fun leaf => by rw [Formula.truth_any, has]⟩
  simp only [List.append_nil] at has'
  simp [formula?, hls, has', furtherAlternatives?]

end Sql

/-! ## Filters -/

namespace Predicate

/-- The truth of a filter when the texts of its leaves have theirs. Values that are asked for one
by one are alternatives. -/
def truthOf (leaf : String → Truth) : Predicate → Truth
  | all | alwaysTrue => .yes
  | nothing => .no
  | compare column op value => leaf (compare column op value).sql
  | membership column op values =>
    if op = .eqAny ∧ values ≠ [] then
      .any (values.map fun v => leaf (compare column .eq v).sql)
    else leaf (membership column op values).sql
  | and a b => (truthOf leaf a).and (truthOf leaf b)
  | or a b => (truthOf leaf a).or (truthOf leaf b)
  | not a => (truthOf leaf a).not
  | group a => truthOf leaf a

/-! ## Leaves -/

open Sql

variable {column : Column}

theorem isLeaf_compare (h : column.IsPlain) (op : Operator) (value : Value) :
    IsLeaf (compare column op value).sql.toList := by
  have htail := (isPart_operator op).append_blank (isPart_literal value)
  simpa [sql, Value.literal] using (isLeaf_column h).append_blank htail

theorem isLeaf_membership (h : column.IsPlain) {op : Operator} {values : List Value}
    (hop : ¬ (op = .eqAny ∧ values ≠ [])) : IsLeaf (membership column op values).sql.toList := by
  have hin : IsPart "IN".toList := .word (by decide)
  have hnot : IsPart "NOT".toList := .word (by decide)
  have hnull : IsPart "NULL".toList := .word (by decide)
  by_cases hempty : values = []
  · subst hempty
    have htail := hin.append_blank hnull.parens
    by_cases hnotIn : op = .notIn
    · simpa [sql, membershipSql, hnotIn] using
        (isLeaf_column h).append_blank (hnot.append_blank htail)
    · simpa [sql, membershipSql, hnotIn] using (isLeaf_column h).append_blank htail
  · have hone : op ≠ .eqAny := fun heq => hop ⟨heq, hempty⟩
    have htail := (isPart_operator op).append_blank (isPart_literal (.list values))
    simpa [sql, membershipSql, hempty, hone, Value.literal] using
      (isLeaf_column h).append_blank htail

theorem reads_compare (h : column.IsPlain) (op : Operator) (value : Value) :
    Reads IsOperand (compare column op value).sql fun leaf =>
      leaf (compare column op value).sql :=
  (isLeaf_compare h op value).reads_leaf (by simp [sql])

theorem reads_membership (h : column.IsPlain) {op : Operator} {values : List Value}
    (hop : ¬ (op = .eqAny ∧ values ≠ [])) :
    Reads IsOperand (membership column op values).sql fun leaf =>
      leaf (membership column op values).sql := by
  refine (isLeaf_membership h hop).reads_leaf ?_
  by_cases hempty : values = []
  · simp [sql, membershipSql, hempty]
  · have hone : op ≠ .eqAny := fun heq => hop ⟨heq, hempty⟩
    simp [sql, membershipSql, hempty, hone]

theorem equalitiesSql_singleton (column : Column) (v : Value) :
    equalitiesSql column [v] = (compare column .eq v).sql := by
  simp [equalitiesSql, sql, Operator.sql, ← String.toList_inj]

theorem equalitiesSql_cons (column : Column) (v w : Value) (values : List Value) :
    equalitiesSql column (v :: w :: values) =
      equalitiesSql column [v] ++ " OR " ++ equalitiesSql column (w :: values) := by
  simp [equalitiesSql, String.intercalate_cons_cons]

theorem reads_equalities (h : column.IsPlain) {values : List Value} (hne : values ≠ []) :
    Reads IsAlternatives (equalitiesSql column values) fun leaf =>
      .any (values.map fun v => leaf (compare column .eq v).sql) := by
  induction values with
  | nil => exact absurd rfl hne
  | cons v values ih =>
    have hv := (reads_compare h .eq v).isConjunction.isAlternatives
    cases values with
    | nil => simpa [equalitiesSql_singleton, Truth.any] using hv
    | cons w values =>
      rw [equalitiesSql_cons, equalitiesSql_singleton]
      exact hv.or (ih (by simp))

/-! ## Trees -/

/-- How the text of a filter is read. -/
structure IsStructured (p : Predicate) : Prop where
  alternatives : Reads IsAlternatives p.sql p.truthOf
  conjunction : p.isOr = false → Reads IsConjunction p.sql p.truthOf
  operand : p.isGroup = true → Reads IsOperand p.sql p.truthOf

namespace IsStructured

variable {a b p : Predicate}

theorem of_operand (h : Reads IsOperand p.sql p.truthOf) : IsStructured p where
  alternatives := h.isConjunction.isAlternatives
  conjunction _ := h.isConjunction
  operand _ := h

/-- An operand of AND: alternatives stand in parentheses there. -/
theorem inConjunction (h : IsStructured p) :
    Reads IsConjunction (if p.isOr then parenthesized p.sql else p.sql) p.truthOf := by
  split
  · exact h.alternatives.parenthesized.isConjunction
  · next hor => exact h.conjunction (Bool.eq_false_iff.mpr hor)

/-- What stands behind NOT: a group brings its own parentheses. -/
theorem inNegation (h : IsStructured p) :
    Reads IsOperand (if p.isGroup then p.sql else parenthesized p.sql) p.truthOf := by
  split
  · next hgroup => exact h.operand hgroup
  · exact h.alternatives.parenthesized

theorem and (ha : IsStructured a) (hb : IsStructured b) : IsStructured (a.and b) := by
  have hread : Reads IsConjunction (a.and b).sql (a.and b).truthOf :=
    ha.inConjunction.and hb.inConjunction
  exact ⟨hread.isAlternatives, fun _ => hread, by simp [isGroup]⟩

theorem or (ha : IsStructured a) (hb : IsStructured b) : IsStructured (a.or b) where
  alternatives := ha.alternatives.or hb.alternatives
  conjunction := by simp [isOr]
  operand := by simp [isGroup]

theorem not (h : IsStructured a) : IsStructured a.not := of_operand h.inNegation.not

theorem group (h : IsStructured a) : IsStructured a.group := of_operand h.alternatives.parenthesized

end IsStructured

theorem isStructured_membership (h : column.IsPlain) (op : Operator) (values : List Value) :
    IsStructured (membership column op values) := by
  by_cases hone : op = .eqAny ∧ values ≠ []
  · obtain ⟨rfl, hne⟩ := hone
    have hread := (reads_equalities h hne).parenthesized
    apply IsStructured.of_operand
    simpa [sql, membershipSql, truthOf, hne] using hread
  · have hread := reads_membership h hone
    apply IsStructured.of_operand
    simpa [truthOf, hone] using hread

theorem isStructured (p : Predicate) (h : ∀ c ∈ p.columns, c.IsPlain) : IsStructured p := by
  have hone : IsPlainWord ['1'] := by decide
  have hzero : IsPlainWord ['0'] := by decide
  induction p with
  | all =>
    have hleaf : IsLeaf "1=1".toList := .equation hone (by decide) (.word hone)
    exact .of_operand hleaf.reads
  | nothing =>
    have hleaf : IsLeaf "1=0".toList := .equation hone (by decide) (.word hzero)
    exact .of_operand hleaf.reads
  | alwaysTrue =>
    have hleaf : IsLeaf "TRUE".toList := .word (by decide) (by decide)
    exact .of_operand hleaf.reads
  | compare column op value =>
    exact .of_operand (reads_compare (h column (by simp [columns])) op value)
  | membership column op values =>
    exact isStructured_membership (h column (by simp [columns])) op values
  | and a b iha ihb =>
    simp only [columns, List.forall_mem_append] at h
    exact (iha h.1).and (ihb h.2)
  | or a b iha ihb =>
    simp only [columns, List.forall_mem_append] at h
    exact (iha h.1).or (ihb h.2)
  | not a ih => exact (ih h).not
  | group a ih => exact (ih h).group

/-- A written filter reads as a formula with the truth of the tree, whatever is true of the texts
of its leaves. -/
theorem formula?_sql {p : Predicate} (h : ∀ c ∈ p.columns, c.IsPlain) :
    ∃ a, formula? p.sql = some a ∧ ∀ leaf, a.truth leaf = p.truthOf leaf :=
  formula?_of_reads (isStructured p h).alternatives

/-- Alternatives in a conjunction, a text that looks like structure, and the equalities of a list
behind NOT. -/
theorem formula?_sql_quoted :
    ∃ a, formula? ("(users.name = ''') OR NOT (''' OR CAST(users.born AS DATE) > '2000-01-31')" ++
        " AND NOT ((users.age = 1 OR users.age = 'x'))") = some a ∧
      ∀ leaf, a.truth leaf =
        ((leaf "users.name = ''') OR NOT ('''").or
          (leaf "CAST(users.born AS DATE) > '2000-01-31'")).and
        ((leaf "users.age = 1").or (leaf "users.age = 'x'")).not := by
  let p : Predicate :=
    and
      (or (compare ⟨"users", "name", false⟩ .eq (.text "') OR NOT ('"))
        (compare ⟨"users", "born", true⟩ .gt (.text "2000-01-31")))
      (not (membership ⟨"users", "age", false⟩ .eqAny [.int 1, .text "x"]))
  have hplain : ∀ c ∈ p.columns, c.IsPlain := by decide
  obtain ⟨a, ha, htruth⟩ := formula?_sql hplain
  refine ⟨a, ha, fun leaf => ?_⟩
  rw [htruth]
  simp only [p, truthOf, List.map, Truth.any, Truth.or_no]
  rfl

end Predicate

end RowPolicy
