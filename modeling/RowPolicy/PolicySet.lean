import Std.Data.TreeMap
import RowPolicy.Policy

/-!
# Sets of rules

Rules by resource, for each in the order in which they were added. Resources are listed by name.
-/
namespace RowPolicy

structure PolicySet where
  byResource : Std.TreeMap String (List Policy)

namespace PolicySet

def empty : PolicySet := ⟨∅⟩

/-- The rules for a resource; there are none for one without entry. -/
def get (s : PolicySet) (resource : String) : List Policy := s.byResource.getD resource []

def insert (s : PolicySet) (resource : String) (policy : Policy) : PolicySet :=
  ⟨s.byResource.insert resource (s.get resource ++ [policy])⟩

/-- Give a resource exactly these rules. -/
def assign (s : PolicySet) (resource : String) (policies : List Policy) : PolicySet :=
  ⟨s.byResource.insert resource policies⟩

def ofList (entries : List (String × Policy)) : PolicySet :=
  entries.foldl (fun s (resource, policy) => s.insert resource policy) empty

def toList (s : PolicySet) : List (String × List Policy) := s.byResource.toList

/-- The resources that have an entry, by name. -/
def resources (s : PolicySet) : List String := s.byResource.keys

/-- The number of rules for all resources together. -/
def size (s : PolicySet) : Nat := (s.toList.flatMap Prod.snd).length

def isEmpty (s : PolicySet) : Bool := s.size == 0

def text (s : PolicySet) : String :=
  "PolicySet(" ++ toString s.byResource.size ++ " resources, " ++ toString s.size ++ " policies)"

@[simp] theorem get_empty (r : String) : empty.get r = [] := by simp [empty, get]

theorem get_insert (s : PolicySet) (q r : String) (p : Policy) :
    (s.insert q p).get r = if q = r then s.get r ++ [p] else s.get r := by
  unfold insert get
  rw [Std.TreeMap.getD_insert]
  split <;> simp_all

end PolicySet

end RowPolicy
