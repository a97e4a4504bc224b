import RowPolicy.Value
import RowPolicy.Number.Shortest

/-!
# SQL literals

How a value is written in a query. A quote inside a text is written twice. Days and times are
quoted as texts are.
-/
namespace RowPolicy

namespace Value

/-- A text between quotes. -/
def quoted (s : List Char) : List Char :=
  '\'' :: s.flatMap (fun c => if c = '\'' then ['\'', '\''] else [c]) ++ ['\'']

mutual

def literalChars : Value → List Char
  | int n => (Numeral.decimal n.toInt).toList
  | float x => x.plain.toList
  | bool b => if b then "TRUE".toList else "FALSE".toList
  | date d => quoted d.text
  | dateTime t => quoted t.text
  | text s => quoted s.toList
  | list items => '(' :: itemsChars items ++ [')']

/-- Items with a comma and a space between them. -/
def itemsChars : List Value → List Char
  | [] => []
  | [v] => literalChars v
  | v :: w :: vs => literalChars v ++ ',' :: ' ' :: itemsChars (w :: vs)

end

def literal (v : Value) : String := String.ofList v.literalChars

end Value

end RowPolicy
