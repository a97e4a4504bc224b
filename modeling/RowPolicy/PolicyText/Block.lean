import RowPolicy.PolicyText.Literal
import RowPolicy.PolicyText.ParseError
import RowPolicy.Policy

/-!
# Policy blocks

A policy text is a series of blocks: the word `policy`, the name of a resource, the name of an
effect, and in braces any number of conditions, each a column, an operator and a literal. What
starts as a block or a condition has to be one to its end.
-/
namespace RowPolicy

namespace PolicyText

def condition (cs : List Char) : Outcome Condition :=
  match name? (skip cs) with
  | none => .absent
  | some (column, rest) =>
    match operator? (skip rest) with
    | none => .fault ⟨skip rest, [.predicate]⟩
    | some (token, rest) =>
      match literal rest with
      | .absent => .fault ⟨skip rest, [.value]⟩
      | .fault f => .fault f
      | .found v rest => .found ⟨String.ofList column, String.ofList token, v⟩ rest

/-- The part of a block behind its two names. -/
def body (resource effect : List Char) (cs : List Char) : Outcome (String × Policy) :=
  match skip cs with
  | '\x7b' :: inner =>
    match many condition inner with
    | .error f => .fault f
    | .ok (conditions, rest) =>
      match skip rest with
      | '\x7d' :: rest =>
        .found (String.ofList resource, ⟨Effect.ofToken (String.ofList effect), conditions⟩) rest
      | stuck => .fault ⟨stuck, [.closingBrace]⟩
  | stuck => .fault ⟨stuck, []⟩

def block (cs : List Char) : Outcome (String × Policy) :=
  match literally? "policy".toList (skip cs) with
  | none => .absent
  | some rest =>
    match name? (skip rest) with
    | none => .fault ⟨skip rest, [.resourceName]⟩
    | some (resource, rest) =>
      match name? (skip rest) with
      | none => .fault ⟨skip rest, [.effect]⟩
      | some (effect, rest) => body resource effect rest

/-- All blocks of a text, if nothing else is in it. -/
def blocks (cs : List Char) : Except Fault (List (String × Policy)) :=
  match many block cs with
  | .error f => .error f
  | .ok (blocks, rest) =>
    match skip rest with
    | [] => .ok blocks
    | stuck => .error ⟨stuck, []⟩

/-- The resources and rules of a text, in its order. -/
def parse (text : String) : Except ParseError (List (String × Policy)) :=
  match blocks text.toList with
  | .ok blocks => .ok blocks
  | .error f => .error (ParseError.ofFault text.toList f)

end PolicyText

end RowPolicy
