/-!
# Reading policy text

A reader takes characters and comes to an `Outcome`: it found something and says what text is left,
or nothing of its kind starts here, or what started here is broken. A broken text is never read in
another way. The fault keeps the text that was left where reading gave up and what was expected
there, from the innermost reader outwards.

Between any two tokens there may be white space and comments. A comment runs from `#` to the end
of its line; a carriage return alone ends no line, and a `#` whose line ends that way opens no
comment.
-/
namespace RowPolicy.PolicyText

inductive Expectation where
  | resourceName
  | effect
  | predicate
  | value
  | closingBrace
  deriving DecidableEq, Repr

structure Fault where
  rest : List Char
  expected : List Expectation
  deriving DecidableEq, Repr

/-- The same fault, seen by a reader around it. -/
def Fault.inside (f : Fault) (e : Expectation) : Fault := { f with expected := f.expected ++ [e] }

inductive Outcome (α : Type) where
  | found (a : α) (rest : List Char)
  | absent
  | fault (f : Fault)

/-- As many as there are, one after the other. A reader that takes no text ends the series. -/
def many {α : Type} (read : List Char → Outcome α) (cs : List Char) :
    Except Fault (List α × List Char) :=
  match read cs with
  | .absent => .ok ([], cs)
  | .fault f => .error f
  | .found a rest =>
    if rest.length < cs.length then
      match many read rest with
      | .ok (as, rest) => .ok (a :: as, rest)
      | .error f => .error f
    else .ok ([a], rest)
termination_by cs.length

def isSpace (c : Char) : Bool :=
  c == ' ' || c == '\t' || c == '\n' || c == '\x0c' || c == '\r'

/-- The end of a comment's line, or nothing if no line ends there. -/
def lineEnd? : List Char → Option (List Char)
  | [] => some []
  | '\n' :: cs => some ('\n' :: cs)
  | '\r' :: '\n' :: cs => some ('\r' :: '\n' :: cs)
  | '\r' :: _ => none
  | _ :: cs => lineEnd? cs

theorem length_of_lineEnd?_eq_some {cs rest : List Char} (h : lineEnd? cs = some rest) :
    rest.length ≤ cs.length := by
  fun_induction lineEnd? cs with
  | case1 => cases h; simp
  | case2 => cases h; simp
  | case3 => cases h; simp
  | case4 => cases h
  | case5 c cs _ _ _ ih => exact Nat.le_succ_of_le (ih h)

/-- The text behind white space and comments. -/
def skip (cs : List Char) : List Char :=
  match cs with
  | [] => []
  | c :: rest =>
    if isSpace c then skip rest
    else if c = '#' then
      match _h : lineEnd? rest with
      | some line => skip line
      | none => c :: rest
    else c :: rest
termination_by cs.length
decreasing_by
  · simp
  · have := length_of_lineEnd?_eq_some _h
    simp; omega

theorem length_skip_le (cs : List Char) : (skip cs).length ≤ cs.length := by
  fun_induction skip cs with
  | case1 => simp
  | case2 c rest _ ih => exact Nat.le_succ_of_le ih
  | case3 rest line h _ ih =>
    have := length_of_lineEnd?_eq_some h
    simp only [List.length_cons]; omega
  | case4 => simp
  | case5 => simp

/-- `skip`, which never makes a text longer. -/
def skipped (cs : List Char) : { rest : List Char // rest.length ≤ cs.length } :=
  ⟨skip cs, length_skip_le cs⟩

end RowPolicy.PolicyText
