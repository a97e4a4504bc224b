import RowPolicy.Json.Document
import RowPolicy.PolicySet

/-!
# Permission maps

Rules in JSON. A permission map is an object whose keys are resources and whose values are arrays
of policies. A policy is an object with `conditions` and `effect`, of which each may be missing and
none may stand twice; other members are skipped. In place of the object an array may give the two
in this order. A condition is an array of a column, an operator and a value.

Only the string `deny` denies: any other effect, of any kind, allows. A resource that is named twice
keeps the rules that stand last.

A text is read once from front to back, so of two faults in it the first is reported.
-/
namespace RowPolicy

namespace PermissionMap

open Json

/-- Brackets may be nested this often. -/
def greatestDepth : Nat := 127

/-! ## Values -/

mutual

/-- The value that a document spells. Null and objects spell none, and an integer that does not
fit in 64 bits is a double. -/
def value? : Document → Option Value
  | .null => none
  | .bool b => some (.bool b)
  | .int n => some (((Numeral.fit64? n).map Value.int).getD (.float (Binary64.ofInt n)))
  | .float x => some (.float x)
  | .string s => some (.text s)
  | .array items => (values? items).map .list
  | .object _ => none

def values? : List Document → Option (List Value)
  | [] => some []
  | d :: ds => (value? d).bind fun v => (values? ds).map (v :: ·)

end

def value (depth : Nat) (cs : List Char) : Reading Value :=
  match Document.read depth cs with
  | .error f => .error f
  | .ok (d, rest) =>
    match value? d with
    | some v => .ok (v, rest)
    | none => .error .misshapen

/-! ## Other kinds -/

/-- The fault of a value that is not of the kind wanted. Its own faults go first, as far as it has
no parts. -/
def otherKind (c : Char) (cs : List Char) : Fault :=
  if c = '[' ∨ c = '\x7b' then .misshapen
  else
    match Document.atom c cs with
    | .error f => f
    | .ok _ => .misshapen

def text (cs : List Char) : Reading String :=
  match skipSpace cs with
  | [] => .error .truncated
  | c :: rest => if c = '"' then string rest else .error (otherKind c rest)

def array {α : Type} (read : List Char → Reading α) (cs : List Char) : Reading (List α) :=
  match skipSpace cs with
  | [] => .error .truncated
  | c :: rest => if c = '[' then elements read rest else .error (otherKind c rest)

/-! ## Arrays of fixed length -/

/-- Whether a first item follows; otherwise the bracket does. -/
def firstItem? (cs : List Char) : Except Fault (Option (List Char)) :=
  match skipSpace cs with
  | [] => .error .truncated
  | c :: _ => .ok (if c = ']' then none else some cs)

/-- Whether a further item follows; otherwise the bracket does. -/
def nextItem? (cs : List Char) : Except Fault (Option (List Char)) :=
  match skipSpace cs with
  | [] => .error .truncated
  | c :: rest =>
    if c = ']' then .ok none else if c = ',' then .ok (some rest) else .error .malformed

/-- The bracket behind the last item. -/
def lastItem (cs : List Char) : Except Fault (List Char) :=
  match skipSpace cs with
  | [] => .error .truncated
  | c :: rest => if c = ']' then .ok rest else .error .malformed

/-- An item that has to be there. -/
def item {α : Type} (start : Except Fault (Option (List Char))) (read : List Char → Reading α) :
    Reading α :=
  match start with
  | .error f => .error f
  | .ok none => .error .misshapen
  | .ok (some cs) => read cs

def condition (depth : Nat) (cs : List Char) : Except Fault (Condition × List Char) :=
  match skipSpace cs with
  | [] => .error .truncated
  | c :: rest =>
    if c = '[' then do
      let (column, rest) ← item (firstItem? rest) text
      let (predicate, rest) ← item (nextItem? rest) text
      let (value, rest) ← item (nextItem? rest) (value (depth - 1))
      let rest ← lastItem rest
      return (⟨column, predicate, value⟩, rest)
    else .error (otherKind c rest)

/-! ## Policies -/

def effectOf : Document → Effect
  | .string s => Effect.ofToken s
  | _ => .allow

def effect (depth : Nat) (cs : List Char) : Reading Effect :=
  (Document.read depth cs).map fun (d, rest) => (effectOf d, rest)

def conditions (depth : Nat) (cs : List Char) : Reading (List Condition) :=
  array (condition (depth - 1)) cs

/-- What is known of a policy while its members are read. -/
structure Draft where
  conditions : Option (List Condition)
  effect : Option Effect

def Draft.empty : Draft := ⟨none, none⟩

def Draft.policy (d : Draft) : Policy := ⟨d.effect.getD .allow, d.conditions.getD []⟩

/-- How the member with a key is read. A key that is known may come once. -/
def Draft.accept (depth : Nat) (d : Draft) (name : String) :
    Except Fault (List Char → Reading Draft) :=
  if name = "conditions" then
    if d.conditions.isSome then .error .misshapen
    else .ok fun cs => (PermissionMap.conditions depth cs).map fun (x, rest) =>
      ({ d with conditions := some x }, rest)
  else if name = "effect" then
    if d.effect.isSome then .error .misshapen
    else .ok fun cs => (PermissionMap.effect depth cs).map fun (x, rest) =>
      ({ d with effect := some x }, rest)
  else .ok fun cs => (skipValue cs).map fun (_, rest) => (d, rest)

/-- A policy as an array, behind its opening bracket. -/
def policyItems (depth : Nat) (cs : List Char) : Except Fault (Policy × List Char) := do
  match ← firstItem? cs with
  | none => return (Draft.empty.policy, ← lastItem cs)
  | some start =>
    let (conditions, rest) ← conditions depth start
    match ← nextItem? rest with
    | none => return (⟨.allow, conditions⟩, ← lastItem rest)
    | some start =>
      let (effect, rest) ← effect depth start
      return (⟨effect, conditions⟩, ← lastItem rest)

def policy (depth : Nat) (cs : List Char) : Reading Policy :=
  match skipSpace cs with
  | [] => .error .truncated
  | c :: rest =>
    if c = '\x7b' then
      (members (Draft.accept (depth - 1)) Draft.empty rest).map fun (d, rest) => (d.policy, rest)
    else if c = '[' then policyItems (depth - 1) rest
    else .error (otherKind c rest)

/-! ## Sets of rules -/

def accept (depth : Nat) (s : PolicySet) (resource : String) :
    Except Fault (List Char → Reading PolicySet) :=
  .ok fun cs => (array (policy (depth - 1)) cs).map fun (policies, rest) =>
    (s.assign resource policies, rest)

def policySet (depth : Nat) (cs : List Char) : Reading PolicySet :=
  match skipSpace cs with
  | [] => .error .truncated
  | c :: rest =>
    if c = '\x7b' then members (accept (depth - 1)) PolicySet.empty rest
    else .error (otherKind c rest)

/-- What a whole text spells: nothing but white space may follow. -/
def whole {α : Type} (read : Nat → List Char → Reading α) (text : String) : Except Fault α :=
  match read greatestDepth text.toList with
  | .error f => .error f
  | .ok (a, rest) => if (skipSpace rest).isEmpty then .ok a else .error .malformed

end PermissionMap

def PolicySet.ofJson (text : String) : Except Json.Fault PolicySet :=
  PermissionMap.whole PermissionMap.policySet text

end RowPolicy
