import RowPolicy.Compilation
import RowPolicy.PolicySet

/-!
# Access checks

An access check asks which rows of a resource a role may see under some rules. Besides the rules
it may carry extra filters, each of which asks a column to equal a value or one of a list.

`AccessCheck.run` looks the resource up in a catalog, turns the rules into a filter and hands the
query to whatever holds the rows.
-/
namespace RowPolicy

structure AccessCheck where
  resource : String
  role : Role
  policies : List Policy
  extras : Std.TreeMap String Value

namespace AccessCheck

/-- A check for a client, without rules and extra filters. -/
def new (resource : String) : AccessCheck := ⟨resource, .client, [], ∅⟩

def withRole (c : AccessCheck) (role : Role) : AccessCheck := { c with role := role }

def withPolicies (c : AccessCheck) (policies : List Policy) : AccessCheck :=
  { c with policies := c.policies ++ policies }

/-- Add the rules that a set has for the check's resource. -/
def withSet (c : AccessCheck) (set : PolicySet) : AccessCheck := c.withPolicies (set.get c.resource)

/-- A column has at most one extra filter, the one that was set last. -/
def withExtra (c : AccessCheck) (column : String) (value : Value) : AccessCheck :=
  { c with extras := c.extras.insert column value }

/-- The filter that the rules amount to, without the extra filters. -/
def filter (c : AccessCheck) (r : Resource) : Except SchemaError Predicate :=
  Policy.filter r c.role c.policies

def text (c : AccessCheck) : String :=
  "PolicyFilter(" ++ c.resource ++ " as " ++ c.role.name ++ ", " ++
    toString c.policies.length ++ " policies, " ++ toString c.extras.size ++ " filters)"

end AccessCheck

/-- What an access check asks of whatever holds the rows. -/
structure Query where
  resource : Resource
  filter : Predicate
  /-- Extra filters by column. -/
  extras : List (String × Value)

/-- Resources by name. -/
structure Catalog where
  resources : Std.TreeMap String Resource

namespace Catalog

def empty : Catalog := ⟨∅⟩

/-- Add a resource in place of an earlier one with its name. -/
def insert (c : Catalog) (r : Resource) : Catalog := ⟨c.resources.insert r.name r⟩

def get? (c : Catalog) (name : String) : Option Resource := c.resources[name]?

end Catalog

/-- Why an access check has no answer. `ε` is how the holder of the rows fails. -/
inductive CheckError (ε : Type) where
  | unknownResource (name : String)
  | schema (e : SchemaError)
  | executor (e : ε)

namespace CheckError

def unknownResourceMessage (name : String) : String := "unknown resource '" ++ name ++ "'"

/-- The text of an error, given the text of the holder's own errors. -/
def message {ε : Type} (text : ε → String) : CheckError ε → String
  | unknownResource name => unknownResourceMessage name
  | schema e => e.message
  | executor e => "query executor failed: " ++ text e

end CheckError

namespace AccessCheck

/-- The query of a check. -/
def query {ε : Type} (c : AccessCheck) (catalog : Catalog) : Except (CheckError ε) Query :=
  match catalog.get? c.resource with
  | none => .error (.unknownResource c.resource)
  | some r =>
    match c.filter r with
    | .error e => .error (.schema e)
    | .ok p => .ok ⟨r, p, c.extras.toList⟩

def run {ε α : Type} (c : AccessCheck) (catalog : Catalog) (execute : Query → Except ε α) :
    Except (CheckError ε) α :=
  match c.query catalog with
  | .error e => .error e
  | .ok q => (execute q).mapError .executor

end AccessCheck

end RowPolicy
