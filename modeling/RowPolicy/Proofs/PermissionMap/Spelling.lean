import RowPolicy.PermissionMap
import RowPolicy.Proofs.Json.Spelling

/-!
# How permission maps are written

The ways to write a set of rules in JSON, said without a reader. The brackets of the value, the
effect or the condition at hand may be nested as often as the brackets around it leave room for.

The same set has many spellings: the resources may stand in any order, the members of a policy too,
and between them members that mean nothing. What is the default may be left out, and an effect that
is not the word `deny` may be any value.
-/
namespace RowPolicy.PermissionMap

open Json

/-- Values without items. An integer is written in plain decimal. -/
inductive WrittenScalar : Value → List Char → Prop where
  | int (n : Int64) : WrittenScalar (.int n) (Numeral.decimal n.toInt).toList
  | bool (b : Bool) : WrittenScalar (.bool b) (if b then "true" else "false").toList
  | text {s : String} {cs : List Char} (h : WrittenString s cs) : WrittenScalar (.text s) cs

def WrittenValue : Nat → Value → List Char → Prop
  | 0, v, cs => WrittenScalar v cs
  | depth + 1, v, cs =>
    WrittenScalar v cs ∨ ∃ items, v = .list items ∧ Enclosed '[' ']' (WrittenValue depth) items cs

/-- A column, an operator and a value. -/
def WrittenCondition (depth : Nat) (c : Condition) : List Char → Prop :=
  Enclosed '[' ']' (fun Item cs => Item cs)
    [WrittenString c.column, WrittenString c.predicate, WrittenValue (depth - 1) c.value]

/-- Only the text `deny` denies, and any other value allows. -/
def WrittenEffect (depth : Nat) : Effect → List Char → Prop
  | .deny, cs => WrittenString "deny" cs
  | .allow, cs => IsUsed depth cs ∧ ¬ WrittenString "deny" cs

/-! ## Policies -/

/-- What a member of an object says about the policy that the object writes. -/
inductive Part where
  | conditions (cs : List Condition)
  | effect (e : Effect)
  | nothing

namespace Part

def conditions? : Part → Option (List Condition)
  | conditions cs => some cs
  | _ => none

def effect? : Part → Option Effect
  | effect e => some e
  | _ => none

end Part

def WrittenPart (depth : Nat) : Part → List Char → Prop
  | .conditions items =>
    Member (WrittenString "conditions") (Enclosed '[' ']' (WrittenCondition (depth - 1)) items)
  | .effect e => Member (WrittenString "effect") (WrittenEffect depth e)
  | .nothing =>
    Member (fun key => ∃ name ≠ "conditions", name ≠ "effect" ∧ WrittenString name key) IsUnused

/-- Conditions and effect are each given once. They may be left out where there are no conditions
and where the effect is to allow. -/
structure Gives (conditions : List (List Condition)) (effects : List Effect) (p : Policy) :
    Prop where
  conditions : conditions = [p.conditions] ∨ conditions = [] ∧ p.conditions = []
  effect : effects = [p.effect] ∨ effects = [] ∧ p.effect = .allow

def WrittenPolicy (depth : Nat) (p : Policy) (cs : List Char) : Prop :=
  ∃ parts, Gives (parts.filterMap Part.conditions?) (parts.filterMap Part.effect?) p ∧
    Enclosed '\x7b' '\x7d' (WrittenPart (depth - 1)) parts cs

/-! ## Sets of rules -/

/-- A resource and its policies. -/
def WrittenEntry (depth : Nat) (entry : String × List Policy) : List Char → Prop :=
  Member (WrittenString entry.1) (Enclosed '[' ']' (WrittenPolicy (depth - 1)) entry.2)

/-- The text writes this set, its resources in any order. -/
def Spells (text : String) (s : PolicySet) : Prop :=
  ∃ entries before object after, entries.Perm s.toList ∧ IsGap before ∧ IsGap after ∧
    Enclosed '\x7b' '\x7d' (WrittenEntry (greatestDepth - 1)) entries object ∧
    text.toList = before ++ (object ++ after)

end RowPolicy.PermissionMap
