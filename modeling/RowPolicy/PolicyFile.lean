import RowPolicy.PolicySet
import RowPolicy.PolicyText.Block

/-!
# Policy files

The set of rules that a policy text holds, and that a file of policy text holds. A file is given by
its bytes, which are to be UTF-8.
-/
namespace RowPolicy

def PolicySet.ofText (text : String) : Except PolicyText.ParseError PolicySet :=
  (PolicyText.parse text).map PolicySet.ofList

/-- Why a file gives no set of rules. -/
inductive LoadError where
  | notFound
  | notText
  | parse (e : PolicyText.ParseError)

/-- The rules in a file, given its bytes if it exists. -/
def PolicySet.ofFile (bytes : Option ByteArray) : Except LoadError PolicySet :=
  match bytes with
  | none => .error .notFound
  | some bytes =>
    match String.fromUTF8? bytes with
    | none => .error .notText
    | some text => (PolicySet.ofText text).mapError .parse

end RowPolicy
