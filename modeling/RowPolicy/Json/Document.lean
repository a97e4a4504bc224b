import RowPolicy.Json.Lexical

/-!
# JSON documents

`elements` and `members` go through an array and an object with a reader for what is inside.
`Document.read` reads any value as a tree; brackets may be nested only up to a limit. `skipValue`
finds the end of a value that is not used, however deeply it is nested.
-/
namespace RowPolicy.Json

/-! ## Arrays and objects -/

/-- One or more elements and the bracket behind them. -/
def elementsFrom {α : Type} (read : List Char → Reading α) (cs : List Char) : Reading (List α) :=
  match read cs with
  | .error f => .error f
  | .ok (a, rest) =>
    match skipSpace rest with
    | [] => .error .truncated
    | c :: next =>
      if c = ']' then .ok ([a], next)
      else if c = ',' then
        if next.length < cs.length then
          match elementsFrom read next with
          | .error f => .error f
          | .ok (as, rest) => .ok (a :: as, rest)
        else .error .malformed
      else .error .malformed
termination_by cs.length

/-- The elements of an array, behind its opening bracket. -/
def elements {α : Type} (read : List Char → Reading α) (cs : List Char) : Reading (List α) :=
  match skipSpace cs with
  | [] => .error .truncated
  | c :: rest => if c = ']' then .ok ([], rest) else elementsFrom read cs

/-- A string behind its opening quote. -/
def string (cs : List Char) : Reading String :=
  (stringBody cs).map fun (s, rest) => (String.ofList s, rest)

/-- A member's key. -/
def key (cs : List Char) : Reading String :=
  match skipSpace cs with
  | [] => .error .truncated
  | c :: rest => if c = '"' then string rest else .error .malformed

/-- What stands behind the colon of a member. -/
def colon (cs : List Char) : Except Fault (List Char) :=
  match skipSpace cs with
  | [] => .error .truncated
  | c :: rest => if c = ':' then .ok rest else .error .malformed

/-- One or more members and the brace behind them. Each key is shown to `accept` before its colon is
looked for; the answer reads the member's value. -/
def membersFrom {σ : Type} (accept : σ → String → Except Fault (List Char → Reading σ))
    (state : σ) (cs : List Char) : Reading σ :=
  match key cs with
  | .error f => .error f
  | .ok (name, rest) =>
    match accept state name with
    | .error f => .error f
    | .ok read =>
      match colon rest with
      | .error f => .error f
      | .ok rest =>
        match read rest with
        | .error f => .error f
        | .ok (state, rest) =>
          match skipSpace rest with
          | [] => .error .truncated
          | c :: next =>
            if c = '\x7d' then .ok (state, next)
            else if c = ',' then
              if next.length < cs.length then membersFrom accept state next
              else .error .malformed
            else .error .malformed
termination_by cs.length

/-- The members of an object, behind its opening brace. -/
def members {σ : Type} (accept : σ → String → Except Fault (List Char → Reading σ))
    (state : σ) (cs : List Char) : Reading σ :=
  match skipSpace cs with
  | [] => .error .truncated
  | c :: rest => if c = '\x7d' then .ok (state, rest) else membersFrom accept state cs

/-! ## Trees -/

inductive Document where
  | null
  | bool (b : Bool)
  | int (n : Int)
  | float (x : Binary64)
  | string (s : String)
  | array (items : List Document)
  | object (members : List (String × Document))

namespace Document

def ofNumber : Number → Document
  | .int n => int n
  | .float x => float x

/-- A value without parts, from its first character. -/
def atom (c : Char) (cs : List Char) : Reading Document :=
  if c = '"' then (Json.string cs).map fun (s, rest) => (string s, rest)
  else if c = 'n' then (literally "ull".toList cs).map fun rest => (null, rest)
  else if c = 't' then (literally "rue".toList cs).map fun rest => (bool true, rest)
  else if c = 'f' then (literally "alse".toList cs).map fun rest => (bool false, rest)
  else if c = '-' ∨ Numeral.isDigit c then
    (number (c :: cs)).map fun (n, rest) => (ofNumber n, rest)
  else .error .malformed

/-- A value in which brackets are nested at most `depth` times. -/
def read (depth : Nat) (cs : List Char) : Reading Document :=
  match skipSpace cs with
  | [] => .error .truncated
  | c :: rest =>
    if c = '[' then
      match depth with
      | 0 => .error .malformed
      | depth + 1 => (elements (read depth) rest).map fun (items, rest) => (array items, rest)
    else if c = '\x7b' then
      match depth with
      | 0 => .error .malformed
      | depth + 1 =>
        let accept (done : List (String × Document)) (name : String) :
            Except Fault (List Char → Reading (List (String × Document))) :=
          .ok fun cs => (read depth cs).map fun (v, rest) => ((name, v) :: done, rest)
        (members accept [] rest).map fun (done, rest) => (object done.reverse, rest)
    else atom c rest

end Document

/-! ## Values that are not used -/

/-- The end of a value without parts, from its first character. -/
def skipAtom (c : Char) (cs : List Char) : Except Fault (List Char) :=
  if c = '"' then skipString cs
  else if c = 'n' then literally "ull".toList cs
  else if c = 't' then literally "rue".toList cs
  else if c = 'f' then literally "alse".toList cs
  else if c = '-' then skipNumber cs
  else if Numeral.isDigit c then skipNumber (c :: cs)
  else .error .malformed

def skipKey (cs : List Char) : Except Fault (List Char) :=
  match skipSpace cs with
  | [] => .error .truncated
  | c :: rest => if c = '"' then skipString rest else .error .malformed

/-- A member of an object that is not used. -/
def skipMember (skip : List Char → Reading Unit) (cs : List Char) : Reading Unit :=
  match skipKey cs with
  | .error f => .error f
  | .ok rest =>
    match colon rest with
    | .error f => .error f
    | .ok rest => skip rest

/-- One or more members and the brace behind them, none of them used. -/
def skipMembersFrom (skip : List Char → Reading Unit) (cs : List Char) : Reading Unit :=
  match skipMember skip cs with
  | .error f => .error f
  | .ok ((), rest) =>
    match skipSpace rest with
    | [] => .error .truncated
    | c :: next =>
      if c = '\x7d' then .ok ((), next)
      else if c = ',' then
        if next.length < cs.length then skipMembersFrom skip next else .error .malformed
      else .error .malformed
termination_by cs.length

def skipMembers (skip : List Char → Reading Unit) (cs : List Char) : Reading Unit :=
  match skipSpace cs with
  | [] => .error .truncated
  | c :: rest => if c = '\x7d' then .ok ((), rest) else skipMembersFrom skip cs

/-- The end of a value in which brackets are nested at most `depth` times. -/
def skipNested (depth : Nat) (cs : List Char) : Reading Unit :=
  match skipSpace cs with
  | [] => .error .truncated
  | c :: rest =>
    if c = '[' then
      match depth with
      | 0 => .error .malformed
      | depth + 1 => (elements (skipNested depth) rest).map fun (_, rest) => ((), rest)
    else if c = '\x7b' then
      match depth with
      | 0 => .error .malformed
      | depth + 1 => skipMembers (skipNested depth) rest
    else (skipAtom c rest).map fun rest => ((), rest)

/-- The end of a value. There are never more brackets open than there are characters. -/
def skipValue (cs : List Char) : Reading Unit := skipNested cs.length cs

end RowPolicy.Json
