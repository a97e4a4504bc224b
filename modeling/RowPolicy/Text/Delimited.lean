import RowPolicy.Text.Blank

/-!
# Delimited lists

A list of elements in one text, as `1,2; 3`. A run of separators counts once, so that an empty
piece inside or at the end disappears; one at the front is an element. White space around an
element is dropped last, so that an element of white space is an empty element. A blank text has
no elements.
-/
namespace RowPolicy.Delimited

def isSeparator (c : Char) : Bool := c == ';' || c == ','

/-- The pieces between separators; there is always a first one. -/
def pieces : List Char → List Char × List (List Char)
  | [] => ([], [])
  | c :: cs =>
    let (first, others) := pieces cs
    if isSeparator c then ([], first :: others) else (c :: first, others)

/-- A list without the empty lists at its end. -/
def dropTrailingEmpty (xs : List (List Char)) : List (List Char) :=
  (xs.reverse.dropWhile List.isEmpty).reverse

def elements (cs : List Char) : List (List Char) :=
  if cs.all isBlank then []
  else
    let (first, others) := pieces cs
    (dropTrailingEmpty (first :: others.filter (!·.isEmpty))).map trim

end RowPolicy.Delimited
