import Mathlib.Data.List.Forall2
import RowPolicy.PolicyText.Block
import RowPolicy.Proofs.Calendar.Reading
import RowPolicy.Proofs.Number.Digits
import RowPolicy.Proofs.Number.Rounding

/-!
# How policies are written

The ways to write a list of policies as text, said without a reader. A value, a condition or a block
is written as a series of tokens, and a layout puts gaps of white space and comments around the
tokens of a text. Where two tokens could run into one word or number, a gap has to part them.

The same blocks have many spellings: besides the gaps there is a choice of escapes for line ends and
tabs, of zeros around the digits of a float, and of a word in place of `allow`.
-/
namespace RowPolicy.PolicyText

/-! ## Layout -/

/-- White space and comments. A comment has no line end inside and a line feed behind. -/
inductive Gap : List Char → Prop where
  | nil : Gap []
  | space {c : Char} {cs : List Char} (h : isSpace c = true) (gap : Gap cs) : Gap (c :: cs)
  | comment {body cs : List Char} (h : ∀ c ∈ body, c ≠ '\r' ∧ c ≠ '\n') (gap : Gap cs) :
    Gap ('#' :: (body ++ '\n' :: cs))

/-- The last character of a token and the one behind it are not both of names and numbers. -/
def Apart (token rest : List Char) : Prop :=
  ¬ (token.getLast?.any isNameChar = true ∧ rest.head?.any isNameChar = true)

instance (token rest : List Char) : Decidable (Apart token rest) :=
  inferInstanceAs (Decidable (¬ (_ ∧ _)))

/-- A text of some tokens with gaps before, between and after them. -/
inductive Layout : List (List Char) → List Char → Prop where
  | done {gap : List Char} (h : Gap gap) : Layout [] gap
  | token {gap token rest : List Char} {tokens : List (List Char)} (h : Gap gap)
    (apart : Apart token rest) (next : Layout tokens rest) :
    Layout (token :: tokens) (gap ++ (token ++ rest))

/-! ## Tokens -/

def IsName (token : List Char) : Prop :=
  ∃ c cs, token = c :: cs ∧ isNameStart c = true ∧ ∀ d ∈ cs, isNameChar d = true

def IsWord (token : List Char) : Prop := token ≠ [] ∧ ∀ c ∈ token, isWordChar c = true

def IsDigits (token : List Char) : Prop := token ≠ [] ∧ ∀ c ∈ token, Numeral.isDigit c = true

/-- A symbol for a comparison or any word. -/
def IsOperator (token : String) : Prop :=
  (∃ op : Operator, op.symbol? = some token) ∨ IsWord token.toList

/-- How a character may stand between quotes. -/
inductive Quoted : Char → List Char → Prop where
  | quote : Quoted '"' ['\\', '"']
  | backslash : Quoted '\\' ['\\', '\\']
  | newline : Quoted '\n' ['\\', 'n']
  | tab : Quoted '\t' ['\\', 't']
  | plain {c : Char} (h : c ≠ '"' ∧ c ≠ '\\') : Quoted c [c]

/-- Values that are one token. -/
inductive Scalar : Value → List Char → Prop where
  | text {s : String} {parts : List (List Char)} (h : List.Forall₂ Quoted s.toList parts) :
    Scalar (.text s) ('"' :: (parts.flatten ++ ['"']))
  | isTrue : Scalar (.bool true) "true".toList
  | isFalse : Scalar (.bool false) "false".toList
  | int {n : Int64} {m : Nat} (negative : Bool) (h : Numeral.negateIf negative m = n.toInt) :
    Scalar (.int n) (Numeral.minusIf negative ++ Nat.toDigits 10 m)
  | float {x : Binary64} {whole places : List Char} (negative : Bool) (hw : IsDigits whole)
    (hp : IsDigits places) (nearest : Binary64.Rounds negative
      (Numeral.value (whole ++ places) * 10 ^ (-places.length : Int)) x) :
    Scalar (.float x) (Numeral.minusIf negative ++ (whole ++ '.' :: places))
  | date {d : Date} (h : 0 ≤ d.year ∧ d.year ≤ 9999) : Scalar (.date d) d.text
  | dateTime {t : DateTime} (h : 0 ≤ t.date.year ∧ t.date.year ≤ 9999)
    (whole : t.IsWhole) :
    Scalar (.dateTime t) (t.date.text ++ 'T' :: t.clockText)

/-! ## Values, conditions and blocks -/

mutual

inductive Written : Value → List (List Char) → Prop where
  | scalar {v : Value} {token : List Char} (h : Scalar v token) : Written v [token]
  | nil : Written (.list []) [['['], [']']]
  | list {v : Value} {vs : List Value} {tokens further : List (List Char)}
    (first : Written v tokens) (more : WrittenItems vs further) :
    Written (.list (v :: vs)) (['['] :: (tokens ++ (further ++ [[']']])))

/-- Items behind the first one, each behind a comma. -/
inductive WrittenItems : List Value → List (List Char) → Prop where
  | nil : WrittenItems [] []
  | cons {v : Value} {vs : List Value} {tokens further : List (List Char)}
    (item : Written v tokens) (more : WrittenItems vs further) :
    WrittenItems (v :: vs) ([','] :: (tokens ++ further))

end

inductive WrittenCondition : Condition → List (List Char) → Prop where
  | mk {c : Condition} {tokens : List (List Char)} (column : IsName c.column.toList)
    (predicate : IsOperator c.predicate) (value : Written c.value tokens) :
    WrittenCondition c (c.column.toList :: c.predicate.toList :: tokens)

/-- Only the word `deny` makes a block deny. -/
inductive WrittenBlock : String × Policy → List (List Char) → Prop where
  | mk {resource effect : String} {p : Policy} {tokens : List (List (List Char))}
    (resourceName : IsName resource.toList) (effectName : IsName effect.toList)
    (resolved : p.effect = .deny ↔ effect = "deny")
    (conditions : List.Forall₂ WrittenCondition p.conditions tokens) :
    WrittenBlock (resource, p)
      ("policy".toList :: resource.toList :: effect.toList :: ['\x7b'] ::
        (tokens.flatten ++ [['\x7d']]))

/-- The text writes these blocks one after the other. -/
def Spells (text : String) (blocks : List (String × Policy)) : Prop :=
  ∃ tokens, List.Forall₂ WrittenBlock blocks tokens ∧ Layout tokens.flatten text.toList

end RowPolicy.PolicyText
