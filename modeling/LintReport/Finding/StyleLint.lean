import LintReport.Finding.Basic
import LintReport.Output.Banner

/-!
StyleLint prints an array with one object a file, which holds the warnings about it.
-/
namespace LintReport.StyleLint

def finding (entry warning : Json) : Finding where
  path := entry.member "source"
  line := warning.member "line"
  description := Finding.describe "StyleLint" (warning.member "text")
  severity := warning.member "severity"
  rule := Finding.qualify "StyleLint" (warning.member "rule")
  column := warning.member "column"
  endLine := warning.member "endLine"
  endColumn := warning.member "endColumn"

def decode (output : Text) : Decoded Finding :=
  (Decoded.ofEntryList "warnings" (Output.withoutBanner "[" output)).map fun (entry, warning) =>
    finding entry warning

def outcome (workingDir output : Text) : Except Fault Outcome :=
  (decode output).findingOutcome workingDir output

end LintReport.StyleLint
