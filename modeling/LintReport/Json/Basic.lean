import LintReport.Number.Shortest
import LintReport.Text.Table

/-!
JSON values. Whole numbers and doubles are different values, and the members of an object keep
the order in which their names first appeared.
-/
namespace LintReport

inductive Json where
  | null
  | bool (b : Bool)
  | int (n : Int)
  | float (x : Binary64)
  | string (s : Text)
  | array (items : List Json)
  | object (members : List (Text × Json))
deriving Repr

namespace Json

instance : Inhabited Json := ⟨null⟩

/-- A member of an object; other values have none. -/
def member? (name : Text) : Json → Option Json
  | object members => Table.get? name members
  | _ => none

/-- A member of an object, where a missing one counts as null. -/
def member (name : Text) (v : Json) : Json := (v.member? name).getD null

/-- Nulls, zeros, and empty texts, arrays and objects are blank; everything else is not. -/
def isBlank : Json → Bool
  | null => true
  | bool b => !b
  | int n => n == 0
  | float x => x.isZero
  | string s => s.isEmpty
  | array items => items.isEmpty
  | object members => members.isEmpty

def members? : Json → Option (Table Json)
  | object members => some members
  | _ => none

end Json

end LintReport
