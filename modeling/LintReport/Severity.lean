import LintReport.Json.Basic
import LintReport.Text.Blank
import LintReport.Text.LetterCase

/-!
The four severities of a report, and the words and numbers that the tools use for them.
-/
namespace LintReport

/-- How much an issue matters, from the least to the most. -/
inductive Severity where
  | info
  | minor
  | major
  | critical
deriving DecidableEq, Repr

namespace Severity

def name : Severity → Text
  | info => "info"
  | minor => "minor"
  | major => "major"
  | critical => "critical"

def ofName? (name : Text) : Option Severity :=
  [info, minor, major, critical].find? fun s => s.name = name

/-- What the tools call the severities, besides the names in a report. -/
def aliases : List (Text × Severity) :=
  [("notice", info), ("warning", minor), ("error", major)]

/-- The severity that a word stands for, blanks around it and its case left out. -/
def ofWord? (word : Text) : Option Severity :=
  let key := word.trimBlanks.lower
  match aliases.find? fun a => a.1 = key with
  | some (_, severity) => some severity
  | none => ofName? key

/-- The severity of a finding. The numbers 0, 1 and 2 count up from `info`; whatever a tool says
that is no severity counts as `major`. -/
def ofJson : Json → Severity
  | .int 0 => info
  | .int 1 => minor
  | .string word => (ofWord? word).getD major
  | _ => major

theorem ofName?_name (s : Severity) : ofName? s.name = some s := by
  cases s <;> decide

end Severity

end LintReport
