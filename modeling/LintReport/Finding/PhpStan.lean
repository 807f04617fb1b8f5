import LintReport.Finding.Basic
import LintReport.Output.Banner

/-!
PHPStan prints a map from files to messages. It knows no severities, so all its findings are major.
-/
namespace LintReport.PhpStan

def finding (file : Text) (message : Json) : Finding where
  path := .string file
  line := message.member "line"
  description := Finding.describe "PHPStan" (message.member "message")
  rule := Finding.qualify "PHPStan" (message.member "identifier")

def decode (output : Text) : Decoded Finding :=
  (Decoded.ofFileMap "messages" (Output.withoutBanner "\x7b" output)).map fun (file, message) =>
    finding file message

def outcome (workingDir output : Text) : Except Fault Outcome :=
  (decode output).findingOutcome workingDir output

end LintReport.PhpStan
