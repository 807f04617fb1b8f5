import LintReport.Finding.Basic
import LintReport.Output.Banner
import LintReport.Output.Excision

/-!
ESLint prints an array with one object a file, which holds the messages about it. Echoed sources are
cut out before the array is read.
-/
namespace LintReport.EsLint

def finding (entry message : Json) : Finding where
  path := entry.member "filePath"
  line := message.member "line"
  description := Finding.describe "ESLint" (message.member "message")
  severity := message.member "severity"
  rule := Finding.qualify "EsLint" (message.member "ruleId")
  column := message.member "column"
  endLine := message.member "endLine"
  endColumn := message.member "endColumn"

/-- The findings in the text of an array. -/
def decodeArray (text : Text) : Decoded Finding :=
  (Decoded.ofEntryList "messages" text).map fun (entry, message) => finding entry message

def decode (output : Text) : Decoded Finding :=
  decodeArray (Output.withoutSources (Output.withoutBanner "[" output))

def outcome (workingDir output : Text) : Except Fault Outcome :=
  (decode output).findingOutcome workingDir output

end LintReport.EsLint
