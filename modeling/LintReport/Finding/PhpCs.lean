import LintReport.Finding.Basic
import LintReport.Output.Banner

/-!
PHP CodeSniffer prints a map from files to messages.
-/
namespace LintReport.PhpCs

def finding (file : Text) (message : Json) : Finding where
  path := .string file
  line := message.member "line"
  description := Finding.describe "PHP CS" (message.member "message")
  severity := message.member "type"
  rule := Finding.qualify "PhpCs" (message.member "source")
  column := message.member "column"

def decode (output : Text) : Decoded Finding :=
  (Decoded.ofFileMap "messages" (Output.withoutBanner "\x7b" output)).map fun (file, message) =>
    finding file message

def outcome (workingDir output : Text) : Except Fault Outcome :=
  (decode output).findingOutcome workingDir output

end LintReport.PhpCs
