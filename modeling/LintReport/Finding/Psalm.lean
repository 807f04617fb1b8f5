import LintReport.Finding.Basic
import LintReport.Output.Banner

/-!
Psalm prints an array with one object a finding.
-/
namespace LintReport.Psalm

/-- Sources that cannot be parsed are critical, whatever severity Psalm gives them. -/
def severity (entry : Json) : Json :=
  match entry.member "type" with
  | .string kind => if kind = Text.ofString "ParseError" then .string "critical" else
    entry.member "severity"
  | _ => entry.member "severity"

def finding (entry : Json) : Finding where
  path := entry.member "file_path"
  line := entry.member "line_from"
  description := Finding.describe "Psalm" (entry.member "message")
  severity := severity entry
  rule := Finding.qualify "Psalm" (entry.member "type")
  column := entry.member "column_from"
  endLine := entry.member "line_to"
  endColumn := entry.member "column_to"

def decode (output : Text) : Decoded Finding :=
  match Output.items? (Output.document? (Output.withoutBanner "[" output)) with
  | none => .spoiled
  | some entries =>
    .ofEntries (entries.map fun entry => entry.members?.map fun _ => [finding entry])

def outcome (workingDir output : Text) : Except Fault Outcome :=
  (decode output).findingOutcome workingDir output

end LintReport.Psalm
