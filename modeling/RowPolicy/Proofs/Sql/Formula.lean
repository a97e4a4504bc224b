import RowPolicy.Truth
import RowPolicy.Proofs.Sql.Lexeme

/-!
# Conditions read as formulas

The tokens of a condition are read by precedence: NOT binds tighter than AND, and AND tighter than
OR. A parenthesis where an operand may start holds alternatives. Any other operand is a leaf. It
goes up to the next AND, OR or closing parenthesis that does not belong to it, and counts as its
text alone, apart from the texts that stand for a constant.

Each reader comes with what it is for tokens to be read by it, whatever follows them:
`IsOperand`, `IsConjunction` and `IsAlternatives`. The lemmas about these three say how
conditions are put together.
-/
namespace RowPolicy.Sql

/-! ## Formulas -/

inductive Formula where
  | constant (t : Truth)
  | leaf (text : String)
  | not (a : Formula)
  | and (a b : Formula)
  | or (a b : Formula)
  deriving DecidableEq, Repr

namespace Formula

/-- The truth of a formula when the texts of its leaves have theirs. -/
def truth (leaf : String → Truth) : Formula → Truth
  | constant t => t
  | .leaf text => leaf text
  | not a => (truth leaf a).not
  | and a b => (truth leaf a).and (truth leaf b)
  | or a b => (truth leaf a).or (truth leaf b)

/-- An operand without connectives. -/
def ofText (text : String) : Formula :=
  if text = "1=1" ∨ text = "TRUE" then constant .yes
  else if text = "1=0" then constant .no
  else leaf text

def all : List Formula → Formula
  | [] => constant .yes
  | [a] => a
  | a :: b :: as => and a (all (b :: as))

def any : List Formula → Formula
  | [] => constant .no
  | [a] => a
  | a :: b :: as => or a (any (b :: as))

@[simp] theorem truth_all (leaf : String → Truth) (as : List Formula) :
    (all as).truth leaf = Truth.all (as.map (truth leaf)) := by
  fun_induction all as with
  | case1 => rfl
  | case2 a => simp [Truth.all]
  | case3 a b as ih => simp [truth, Truth.all, ih]

@[simp] theorem truth_any (leaf : String → Truth) (as : List Formula) :
    (any as).truth leaf = Truth.any (as.map (truth leaf)) := by
  fun_induction any as with
  | case1 => rfl
  | case2 a => simp [Truth.any]
  | case3 a b as ih => simp [truth, Truth.any, ih]

end Formula

/-! ## Reading -/

namespace Lexeme

def isKeyword (word : String) (l : Lexeme) : Bool :=
  match l.token with
  | .word cs => Numeral.isWord word cs
  | _ => false

def isMark (c : Char) (l : Lexeme) : Bool :=
  match l.token with
  | .mark d => d == c
  | _ => false

/-- Whether an operand that has no open parenthesis is over. -/
def endsOperand (l : Lexeme) : Bool := l.isMark ')' || l.isKeyword "and" || l.isKeyword "or"

/-- The number of open parentheses behind a token. -/
def depthAfter (depth : Nat) (l : Lexeme) : Nat :=
  if l.isMark '(' then depth + 1 else if l.isMark ')' then depth - 1 else depth

variable (gap : List Char)

@[simp] theorem isKeyword_word (word : String) (cs : List Char) :
    isKeyword word ⟨gap, .word cs⟩ = Numeral.isWord word cs := rfl

@[simp] theorem isKeyword_quoted (word : String) (s : List Char) :
    isKeyword word ⟨gap, .quoted s⟩ = false := rfl

@[simp] theorem isKeyword_mark (word : String) (c : Char) :
    isKeyword word ⟨gap, .mark c⟩ = false := rfl

@[simp] theorem isMark_word (c : Char) (cs : List Char) : isMark c ⟨gap, .word cs⟩ = false := rfl

@[simp] theorem isMark_quoted (c : Char) (s : List Char) :
    isMark c ⟨gap, .quoted s⟩ = false := rfl

@[simp] theorem isMark_mark (c d : Char) : isMark c ⟨gap, .mark d⟩ = (d == c) := rfl

end Lexeme

/-- The tokens up to the end of a leaf, and what follows. -/
def leafTokens (depth : Nat) : List Lexeme → List Lexeme × List Lexeme
  | [] => ([], [])
  | l :: ls =>
    if depth = 0 ∧ l.endsOperand then ([], l :: ls)
    else
      let (front, rest) := leafTokens (l.depthAfter depth) ls
      (l :: front, rest)

/-- The text of some tokens without the blanks in front of it. -/
def textOf (ls : List Lexeme) : String :=
  String.ofList ((ls.flatMap Lexeme.text).dropWhile Char.isWhitespace)

mutual

/-- An operand, and what follows it. -/
def operand? : List Lexeme → Option (Formula × List Lexeme)
  | [] => none
  | l :: ls =>
    if l.isKeyword "not" then (operand? ls).map fun (a, rest) => (.not a, rest)
    else if l.isMark '(' then
      match alternatives? ls with
      | some (as, close :: rest) => if close.isMark ')' then some (.any as, rest) else none
      | _ => none
    else if l.endsOperand then none
    else
      let (front, rest) := leafTokens 0 (l :: ls)
      some (.ofText (textOf front), rest)
termination_by ls => (ls.length, 0)

/-- One or more operands with AND between them, and what follows. -/
def conjuncts? (ls : List Lexeme) : Option (List Formula × List Lexeme) :=
  match operand? ls with
  | none => none
  | some (a, rest) =>
    if rest.length < ls.length then
      (furtherConjuncts? rest).map fun (as, rest) => (a :: as, rest)
    else none
termination_by (ls.length, 1)

def furtherConjuncts? : List Lexeme → Option (List Formula × List Lexeme)
  | [] => some ([], [])
  | l :: ls => if l.isKeyword "and" then conjuncts? ls else some ([], l :: ls)
termination_by ls => (ls.length, 0)

/-- One or more conjunctions with OR between them, and what follows. -/
def alternatives? (ls : List Lexeme) : Option (List Formula × List Lexeme) :=
  match conjuncts? ls with
  | none => none
  | some (as, rest) =>
    if rest.length < ls.length then
      (furtherAlternatives? rest).map fun (bs, rest) => (.all as :: bs, rest)
    else none
termination_by (ls.length, 2)

def furtherAlternatives? : List Lexeme → Option (List Formula × List Lexeme)
  | [] => some ([], [])
  | l :: ls => if l.isKeyword "or" then alternatives? ls else some ([], l :: ls)
termination_by ls => (ls.length, 0)

end

/-- The formula that a text is. -/
def formula? (text : String) : Option Formula :=
  match (lexemes? text.toList).bind alternatives? with
  | some (as, []) => some (.any as)
  | _ => none

/-! ## Leaves -/

/-- Tokens that a leaf takes as they come, however many parentheses are open. -/
def Inert (ls : List Lexeme) : Prop :=
  ∀ depth rest, leafTokens depth (ls ++ rest) =
    (ls ++ (leafTokens depth rest).1, (leafTokens depth rest).2)

namespace Inert

variable {ls ls' : List Lexeme}

theorem singleton {l : Lexeme} (hend : l.endsOperand = false) (hopen : l.isMark '(' = false) :
    Inert [l] := by
  intro depth rest
  have hclose : l.isMark ')' = false := by
    simp only [Lexeme.endsOperand, Bool.or_eq_false_iff] at hend
    exact hend.1.1
  simp [leafTokens, hend, Lexeme.depthAfter, hopen, hclose]

theorem append (h : Inert ls) (h' : Inert ls') : Inert (ls ++ ls') := by
  intro depth rest
  simp [List.append_assoc, h depth, h' depth]

theorem parens (h : Inert ls) (gap gap' : List Char) :
    Inert (⟨gap, .mark '('⟩ :: ls ++ [⟨gap', .mark ')'⟩]) := by
  intro depth rest
  have hopen (more : List Lexeme) : leafTokens depth (⟨gap, .mark '('⟩ :: more) =
      (⟨gap, .mark '('⟩ :: (leafTokens (depth + 1) more).1, (leafTokens (depth + 1) more).2) := by
    simp [leafTokens, Lexeme.endsOperand, Lexeme.depthAfter]
  have hclose : leafTokens (depth + 1) (⟨gap', .mark ')'⟩ :: rest) =
      (⟨gap', .mark ')'⟩ :: (leafTokens depth rest).1, (leafTokens depth rest).2) := by
    simp [leafTokens, Lexeme.depthAfter]
  rw [List.cons_append, List.cons_append, List.append_assoc, List.singleton_append, hopen,
    h (depth + 1), hclose]
  simp

end Inert

/-! ## What is read -/

/-- The truth of a condition, from what is true of the texts of its leaves. -/
abbrev Meaning := (String → Truth) → Truth

/-- The text is over, or the next token ends an operand. -/
def EndsOperand (rest : List Lexeme) : Prop := ∀ l ∈ rest.head?, l.endsOperand = true

/-- The text is over, or the next token ends a conjunction. -/
def EndsConjunction (rest : List Lexeme) : Prop :=
  ∀ l ∈ rest.head?, l.isMark ')' = true ∨ l.isKeyword "or" = true

theorem EndsConjunction.endsOperand {rest : List Lexeme} (h : EndsConjunction rest) :
    EndsOperand rest := by
  intro l hl
  rcases h l hl with hclose | hor
  · simp [Lexeme.endsOperand, hclose]
  · simp [Lexeme.endsOperand, hor]

theorem EndsConjunction.furtherConjuncts?_eq {rest : List Lexeme} (h : EndsConjunction rest) :
    furtherConjuncts? rest = some ([], rest) := by
  cases rest with
  | nil => rw [furtherConjuncts?]
  | cons l rest =>
    have hand : l.isKeyword "and" = false := by
      rcases l with ⟨gap, cs | s | c⟩
      · have hor : Numeral.isWord "or" cs = true := by simpa using h _ rfl
        rw [Numeral.isWord, beq_iff_eq] at hor
        simp [Numeral.isWord, hor]
      · rfl
      · rfl
    simp [furtherConjuncts?, hand]

def IsOperand (ls : List Lexeme) (f : Meaning) : Prop :=
  ∃ a : Formula, (∀ leaf, a.truth leaf = f leaf) ∧
    ∀ rest, EndsOperand rest → operand? (ls ++ rest) = some (a, rest)

/-- Operands joined by AND. More of them may follow. -/
def IsConjunction (ls : List Lexeme) (f : Meaning) : Prop :=
  ∃ as : List Formula, (∀ leaf, Truth.all (as.map (Formula.truth leaf)) = f leaf) ∧
    ∀ rest, EndsOperand rest → conjuncts? (ls ++ rest) =
      (furtherConjuncts? rest).map fun (bs, rest) => (as ++ bs, rest)

/-- Conjunctions joined by OR. More of them may follow. -/
def IsAlternatives (ls : List Lexeme) (f : Meaning) : Prop :=
  ∃ as : List Formula, (∀ leaf, Truth.any (as.map (Formula.truth leaf)) = f leaf) ∧
    ∀ rest, EndsConjunction rest → alternatives? (ls ++ rest) =
      (furtherAlternatives? rest).map fun (bs, rest) => (as ++ bs, rest)

variable {ls ls' : List Lexeme} {f g : Meaning}

/-- A token that is no start of a negation or a group and ends nothing. -/
structure StartsLeaf (l : Lexeme) : Prop where
  not_negation : l.isKeyword "not" = false
  not_open : l.isMark '(' = false
  not_end : l.endsOperand = false

theorem isOperand_leaf {l : Lexeme} (h : Inert (l :: ls)) (hl : StartsLeaf l) :
    IsOperand (l :: ls) (Formula.ofText (textOf (l :: ls))).truth := by
  refine ⟨.ofText (textOf (l :: ls)), fun leaf => rfl, fun rest hrest => ?_⟩
  have hstop : leafTokens 0 rest = ([], rest) := by
    cases rest with
    | nil => rfl
    | cons m rest => simp [leafTokens, hrest m rfl]
  have hleaf : leafTokens 0 (l :: (ls ++ rest)) = (l :: ls, rest) := by
    simpa [hstop] using h 0 rest
  simp [operand?, hl.not_negation, hl.not_open, hl.not_end, hleaf]

theorem IsOperand.not (h : IsOperand ls f) {gap word : List Char}
    (hword : Numeral.isWord "not" word = true) :
    IsOperand (⟨gap, .word word⟩ :: ls) fun leaf => (f leaf).not := by
  obtain ⟨a, ha, hread⟩ := h
  refine ⟨a.not, fun leaf => congrArg Truth.not (ha leaf), fun rest hrest => ?_⟩
  simp [operand?, hword, hread rest hrest]

theorem IsAlternatives.parens (h : IsAlternatives ls f) (gap gap' : List Char) :
    IsOperand (⟨gap, .mark '('⟩ :: ls ++ [⟨gap', .mark ')'⟩]) f := by
  obtain ⟨as, has, hread⟩ := h
  refine ⟨.any as, fun leaf => by rw [Formula.truth_any, has], fun rest hrest => ?_⟩
  have hends : EndsConjunction (⟨gap', .mark ')'⟩ :: rest) := by simp [EndsConjunction]
  have hinner := hread _ hends
  simp [operand?, hinner, furtherAlternatives?]

theorem IsOperand.isConjunction (h : IsOperand ls f) (hne : ls ≠ []) : IsConjunction ls f := by
  obtain ⟨a, ha, hread⟩ := h
  refine ⟨[a], fun leaf => by simp [Truth.all, ha], fun rest hrest => ?_⟩
  have hpos := List.length_pos_of_ne_nil hne
  rw [conjuncts?, hread rest hrest]
  simp [hpos]

theorem IsConjunction.and (h : IsConjunction ls f) (h' : IsConjunction ls' g) {gap word : List Char}
    (hword : Numeral.isWord "and" word = true) :
    IsConjunction (ls ++ ⟨gap, .word word⟩ :: ls') fun leaf => (f leaf).and (g leaf) := by
  obtain ⟨as, has, hread⟩ := h
  obtain ⟨bs, hbs, hread'⟩ := h'
  refine ⟨as ++ bs, fun leaf => by rw [List.map_append, Truth.all_append, has, hbs],
    fun rest hrest => ?_⟩
  have hends : EndsOperand (⟨gap, .word word⟩ :: (ls' ++ rest)) := by
    simp [EndsOperand, Lexeme.endsOperand, hword]
  simp [hread _ hends, furtherConjuncts?, hword, hread' rest hrest, Function.comp_def]

theorem IsConjunction.isAlternatives (h : IsConjunction ls f) (hne : ls ≠ []) :
    IsAlternatives ls f := by
  obtain ⟨as, has, hread⟩ := h
  refine ⟨[.all as], fun leaf => by simp [Truth.any, has], fun rest hrest => ?_⟩
  have hpos := List.length_pos_of_ne_nil hne
  rw [alternatives?, hread rest hrest.endsOperand, hrest.furtherConjuncts?_eq]
  simp [hpos]

theorem IsAlternatives.or (h : IsAlternatives ls f) (h' : IsAlternatives ls' g)
    {gap word : List Char} (hword : Numeral.isWord "or" word = true) :
    IsAlternatives (ls ++ ⟨gap, .word word⟩ :: ls') fun leaf => (f leaf).or (g leaf) := by
  obtain ⟨as, has, hread⟩ := h
  obtain ⟨bs, hbs, hread'⟩ := h'
  refine ⟨as ++ bs, fun leaf => by rw [List.map_append, Truth.any_append, has, hbs],
    fun rest hrest => ?_⟩
  have hends : EndsConjunction (⟨gap, .word word⟩ :: (ls' ++ rest)) := by
    simp [EndsConjunction, hword]
  simp [hread _ hends, furtherAlternatives?, hword, hread' rest hrest, Function.comp_def]

end RowPolicy.Sql
