import RowPolicy.PolicyText.Token
import RowPolicy.Value

/-!
# Literals of policy text

The values that a condition may be written with: quoted texts, truth words, dates and date-times,
numbers, and lists of literals in brackets. A number with a sign in front is recognized by its sign
and then has to be one; a number without sign that is too large is no literal.
-/
namespace RowPolicy.PolicyText

/-- Year, month and day. -/
def calendarDay? (cs : List Char) : Option ((Nat × Nat × Nat) × List Char) := do
  let (year, cs) ← digits? 4 cs
  let cs ← literally? ['-'] cs
  let (month, cs) ← digits? 2 cs
  let cs ← literally? ['-'] cs
  let (day, cs) ← digits? 2 cs
  return ((year, month, day), cs)

/-- Hour, minute and second, behind a `T`. -/
def clockTime? (cs : List Char) : Option ((Nat × Nat × Nat) × List Char) := do
  let cs ← literally? ['T'] cs
  let (hour, cs) ← digits? 2 cs
  let cs ← literally? [':'] cs
  let (minute, cs) ← digits? 2 cs
  let cs ← literally? [':'] cs
  let (second, cs) ← digits? 2 cs
  return ((hour, minute, second), cs)

/-- A date or a date-time. Digits in the right places may still denote no day. -/
def time? (cs : List Char) : Option (Option Value × List Char) :=
  match calendarDay? cs with
  | none => none
  | some ((year, month, day), rest) =>
    let date := Date.of? year month day
    match clockTime? rest with
    | none => some (date.map .date, rest)
    | some ((hour, minute, second), rest) =>
      some (date.bind fun d => (DateTime.ofClock? d hour minute second).map .dateTime, rest)

/-- A minus and digits with points among them. They may still denote no number. -/
def negative? : List Char → Option (Option Value × List Char)
  | '-' :: cs =>
    match run? (fun c => Numeral.isDigit c || c == '.') cs with
    | none => none
    | some (body, rest) =>
      if body.contains '.' then some ((Numeral.binary64? ('-' :: body)).map .float, rest)
      else some ((Numeral.int64? ('-' :: body)).map .int, rest)
  | _ => none

/-- Digits on both sides of a point. -/
def decimal? (cs : List Char) : Option (Option Value × List Char) := do
  let (whole, cs) ← run? Numeral.isDigit cs
  let cs ← literally? ['.'] cs
  let (places, cs) ← run? Numeral.isDigit cs
  return ((Numeral.binary64? (whole ++ '.' :: places)).map .float, cs)

/-- Digits that do not start with zero, perhaps behind a plus. -/
def counting? (cs : List Char) : Option (Option Value × List Char) := do
  let (digits, rest) ← run? Numeral.isDigit cs
  if digits.head? = some '0' then none
  let n ← Numeral.int64? digits
  return (some (.int n), rest)

def integer? : List Char → Option (Option Value × List Char)
  | '0' :: rest => some (some (.int 0), rest)
  | '+' :: rest => counting? rest
  | cs => counting? cs

/-- A literal that is no list. The value is missing where the literal denotes none. -/
def scalar? : List Char → Option (Option Value × List Char)
  | '"' :: rest => (quoted? rest).map fun (s, rest) => (some (.text (String.ofList s)), rest)
  | cs =>
    ((literally? "true".toList cs).map fun rest => (some (.bool true), rest)).or <|
    ((literally? "false".toList cs).map fun rest => (some (.bool false), rest)).or <|
    (time? cs).or <| (negative? cs).or <| (decimal? cs).or (integer? cs)

/-- What a scalar at the front of a text comes to. -/
def scalar (cs : List Char) : Outcome Value :=
  match scalar? cs with
  | none => .absent
  | some (some v, rest) => .found v rest
  | some (none, rest) => .fault ⟨rest, [.value]⟩

/-- The bracket behind the items of a list. -/
def closeList (items : List Value) (cs : List Char) : Outcome Value :=
  match skip cs with
  | ']' :: rest => .found (.list items) rest
  | stuck => .fault ⟨stuck, [.value]⟩

mutual

/-- A literal behind white space and comments. -/
def literal (cs : List Char) : Outcome Value :=
  match skipped cs with
  | ⟨[], _⟩ => .absent
  | ⟨c :: rest, _⟩ =>
    if c = '[' then
      match items rest with
      | .error f => .fault (f.inside .value)
      | .ok (values, rest) => closeList values rest
    else scalar (c :: rest)
termination_by (cs.length, 0)
decreasing_by exact Prod.Lex.left _ _ (by assumption)

/-- The literals of a list, up to where neither a literal nor a comma and a literal follow. -/
def items (cs : List Char) : Except Fault (List Value × List Char) :=
  match literal cs with
  | .absent => .ok ([], cs)
  | .fault f => .error f
  | .found v rest =>
    if rest.length < cs.length then
      match furtherItems rest with
      | .ok (vs, rest) => .ok (v :: vs, rest)
      | .error f => .error f
    else .ok ([v], rest)
termination_by (cs.length, 1)
decreasing_by
  · exact Prod.Lex.right _ (by decide)
  · exact Prod.Lex.left _ _ (by assumption)

/-- A comma that no literal follows is not part of the list. -/
def furtherItems (cs : List Char) : Except Fault (List Value × List Char) :=
  match skipped cs with
  | ⟨[], _⟩ => .ok ([], cs)
  | ⟨c :: next, _⟩ =>
    if c = ',' then
      match literal next with
      | .absent => .ok ([], cs)
      | .fault f => .error f
      | .found v rest =>
        if rest.length < cs.length then
          match furtherItems rest with
          | .ok (vs, rest) => .ok (v :: vs, rest)
          | .error f => .error f
        else .ok ([v], rest)
    else .ok ([], cs)
termination_by (cs.length, 0)
decreasing_by
  · exact Prod.Lex.left _ _ (by assumption)
  · exact Prod.Lex.left _ _ (by assumption)

end

end RowPolicy.PolicyText
