import LintReport.Issue

/-!
Ranking. Issues are grouped by their check, and the groups are ranked by size. Groups of one size
keep the order in which their checks first came up.
-/
namespace LintReport

/-- The issues of one check: how many there are, and the last of them. -/
structure Ranking.Entry where
  checkName : Text
  count : Nat
  last : Issue
deriving DecidableEq, Repr

namespace Ranking

def add (groups : Table (Nat × Issue)) (issue : Issue) : Table (Nat × Issue) :=
  let count := (Table.get? issue.checkName groups).elim 0 (·.1)
  Table.insert issue.checkName (count + 1, issue) groups

/-- The groups of some issues, in the order in which they came up. -/
def groups (issues : List Issue) : List Entry :=
  (issues.foldl add []).map fun (name, count, last) => ⟨name, count, last⟩

/-- The groups of some issues, larger ones first. -/
def ofIssues (issues : List Issue) : List Entry :=
  (groups issues).mergeSort fun a b => b.count ≤ a.count

end Ranking

end LintReport
