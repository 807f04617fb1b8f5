import LintReport.Proofs.CommandLine.Critical
import LintReport.Proofs.Report.Table

/-!
Statistics of a run. The text of the statistics is said line by line, and what is said is the table
of the issues if and only if neither the name of a check nor a path in it breaks a line. Tools are
free in what they call a finding, so a message can put lines of its own into the table.
-/
namespace LintReport.CommandLine

open Pipeline (Context Succeeds contextOf issuesOf takesPart)
open Summary (IsTable Tabulates)

/-- A session with one tool, which says something about totals of its own. -/
def forgingSession : Session :=
  let output := Text.ofString "[\x7b\"message\":\"x\\nTotal issues: 0 (0 critical)\"\x7d]"
  { Pipeline.psalmSession with
    workspace := { Pipeline.psalmSession.workspace with
      tools := [("psalm", { output := output.flatMap CodePoint.utf8 })] } }

end LintReport.CommandLine
