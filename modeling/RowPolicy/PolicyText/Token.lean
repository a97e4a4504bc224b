import RowPolicy.PolicyText.Reading
import RowPolicy.Number.Numeral

/-!
# Tokens of policy text

Names, words and quoted texts. Each function takes a token from the front of a text and says what
is left, or answers nothing if no such token starts there.
-/
namespace RowPolicy.PolicyText

def isNameStart (c : Char) : Bool :=
  ('a' ≤ c && c ≤ 'z') || ('A' ≤ c && c ≤ 'Z') || c == '_'

def isWordChar (c : Char) : Bool := isNameStart c || Numeral.isDigit c

def isNameChar (c : Char) : Bool := isWordChar c || c == '.'

/-- One or more characters of a kind. -/
def run? (kind : Char → Bool) (cs : List Char) : Option (List Char × List Char) :=
  let taken := cs.takeWhile kind
  if taken.isEmpty then none else some (taken, cs.dropWhile kind)

/-- A name: a letter or underscore, then letters, digits, underscores and points. -/
def name? : List Char → Option (List Char × List Char)
  | [] => none
  | c :: cs =>
    if isNameStart c then some (c :: cs.takeWhile isNameChar, cs.dropWhile isNameChar) else none

/-- What is left behind the given characters. -/
def literally? : List Char → List Char → Option (List Char)
  | [], cs => some cs
  | _ :: _, [] => none
  | w :: ws, c :: cs => if w = c then literally? ws cs else none

/-- A symbol for a comparison, or any word. A longer symbol goes before its beginning. -/
def operator? : List Char → Option (List Char × List Char)
  | '>' :: '=' :: cs => some (['>', '='], cs)
  | '>' :: cs => some (['>'], cs)
  | '<' :: '=' :: cs => some (['<', '='], cs)
  | '<' :: cs => some (['<'], cs)
  | '=' :: '=' :: cs => some (['=', '='], cs)
  | '!' :: '=' :: cs => some (['!', '='], cs)
  | cs => run? isWordChar cs

/-- What a backslash and the character behind it stand for. -/
def unescape (c : Char) : List Char :=
  if c = '"' then ['"']
  else if c = '\\' then ['\\']
  else if c = 'n' then ['\n']
  else if c = 't' then ['\t']
  else ['\\', c]

/-- The content of a quoted text, up to the closing quote. -/
def quoted? : List Char → Option (List Char × List Char)
  | [] => none
  | '"' :: rest => some ([], rest)
  | '\\' :: [] => none
  | '\\' :: c :: rest => (quoted? rest).map fun (s, rest) => (unescape c ++ s, rest)
  | c :: rest => (quoted? rest).map fun (s, rest) => (c :: s, rest)

/-- Exactly so many digits, as a number. -/
def digits? (count : Nat) (cs : List Char) : Option (Nat × List Char) :=
  let taken := cs.take count
  if taken.length = count ∧ taken.all Numeral.isDigit then
    some (Numeral.value taken, cs.drop count)
  else none

end RowPolicy.PolicyText
