import RowPolicy.Operator
import RowPolicy.Value.Literal

/-!
# Rules

A policy allows or denies the rows that meet all its conditions. A condition names its operator
by a token, which is kept as it was given until the rule is applied to a resource. A role is who
asks: administrators see everything, and clients see nothing that no rule speaks of.
-/
namespace RowPolicy

inductive Effect where
  | allow
  | deny
  deriving DecidableEq, Repr

namespace Effect

/-- Only the very word denies; any other allows. -/
def ofToken (token : String) : Effect := if token = "deny" then deny else allow

def token : Effect → String
  | allow => "allow"
  | deny => "deny"

end Effect

structure Condition where
  column : String
  predicate : String
  value : Value

namespace Condition

/-- A condition whose operator is known; its token is the operator's word. -/
def ofOperator (column : String) (op : Operator) (value : Value) : Condition :=
  ⟨column, op.token, value⟩

def text (c : Condition) : String := c.column ++ " " ++ c.predicate ++ " " ++ c.value.literal

end Condition

structure Policy where
  effect : Effect
  conditions : List Condition

/-- Allows every row, and so restricts nothing. -/
def Policy.isOpen (p : Policy) : Bool := p.effect = .allow && p.conditions.isEmpty

inductive Role where
  | admin
  | client
  | other (name : String)
  deriving DecidableEq, Repr

namespace Role

def ofName (name : String) : Role :=
  if name = "admin" then admin else if name = "client" then client else other name

def name : Role → String
  | admin => "admin"
  | client => "client"
  | other name => name

end Role

end RowPolicy
