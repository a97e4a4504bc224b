import RowPolicy.PolicyText.Reading
import RowPolicy.Text.ByteCount

/-!
# Messages about policy text

A message quotes the line on which reading gave up and points at the place. A place is a count of
bytes in the text, and a line and column. Columns count characters, except that a column at a
character of several bytes counts bytes. The end of the text is one column behind its last byte,
on the line of that byte, even if the byte ends the line.
-/
namespace RowPolicy.PolicyText

def Expectation.text : Expectation → String
  | resourceName => "resource name"
  | effect => "effect"
  | predicate => "predicate"
  | value => "value"
  | closingBrace => "`\x7d`"

/-- The text is `before ++ rest`, and reading gave up between the two. -/
structure ParseError where
  before : List Char
  rest : List Char
  expected : List Expectation
  deriving DecidableEq, Repr

/-- The characters behind the last line end. -/
def lastLine (cs : List Char) : List Char := (cs.reverse.takeWhile (· != '\n')).reverse

namespace ParseError

def ofFault (text : List Char) (f : Fault) : ParseError :=
  ⟨text.take (text.length - f.rest.length), f.rest, f.expected⟩

def offset (e : ParseError) : Nat := byteCount e.before

/-- What stands before the character that the place is taken from: the one behind it, or at the end
of the text the last one. -/
def ahead (e : ParseError) : List Char := if e.rest.isEmpty then e.before.dropLast else e.before

/-- Line ends before the place. -/
def lineIndex (e : ParseError) : Nat := e.ahead.count '\n'

def columnIndex (e : ParseError) : Nat :=
  match e.rest with
  | [] => (lastLine e.ahead).length + 1
  | c :: _ =>
    if c.utf8Size = 1 then (lastLine e.ahead).length else byteCount (lastLine e.ahead)

/-- The whole line, up to its line end. -/
def line (e : ParseError) : List Char :=
  lastLine e.ahead ++ ((e.before ++ e.rest).drop e.ahead.length).takeWhile (· != '\n')

def spaces (n : Nat) : String := String.ofList (List.replicate n ' ')

def expectation (e : ParseError) : String :=
  if e.expected.isEmpty then ""
  else "expected " ++ ", ".intercalate (e.expected.map Expectation.text)

/-- A text of one line is quoted whole; of several lines only one is, behind its number. -/
def picture (e : ParseError) : String :=
  let text := e.before ++ e.rest
  if text.contains '\n' then
    let number := toString (e.lineIndex + 1)
    let gutter := spaces number.length
    "parse error at line " ++ number ++ ", column " ++ toString (e.columnIndex + 1) ++ "\n" ++
    gutter ++ " |\n" ++
    number ++ " | " ++ String.ofList e.line ++ "\n" ++
    gutter ++ " | " ++ spaces e.columnIndex ++ "^\n"
  else String.ofList text ++ "\n" ++ spaces e.offset ++ "^\n"

def message (e : ParseError) : String :=
  "policy parse error at byte " ++ toString e.offset ++ ": " ++ e.picture ++ e.expectation

end ParseError

end RowPolicy.PolicyText
