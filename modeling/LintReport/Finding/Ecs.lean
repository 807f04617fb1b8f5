import LintReport.Finding.Basic
import LintReport.Output.Banner
import LintReport.Output.Hunk

/-!
ECS prints a map from files to diffs, each with the rules that it applies. Every rule of a diff is a
finding of its own, at the line that the diff is most likely about.
-/
namespace LintReport.Ecs

def diffText (diff : Json) : Except Fault Text :=
  let v := diff.member "diff"
  if v.isBlank then .ok [] else
    match v with
    | .string s => .ok s
    | v => .error (.notSearchable v)

/-- The rules that a diff applies. The elements of a text are its units, and those of an object
its names. -/
def checkers (diff : Json) : Except Fault (List Json) :=
  let v := diff.member "applied_checkers"
  if v.isBlank then .ok [] else
    match v with
    | .array items => .ok items
    | .string s => .ok (s.map fun c => .string [c])
    | .object members => .ok (members.map fun m => .string m.1)
    | v => .error (.notIterable v)

/-- The name of a rule, with dots for the backslashes of a class name. -/
def ruleName (checker : Json) : Text :=
  Text.replace [.scalar '\\'] [.scalar '.'] checker.shown

def finding (file : Text) (line : Nat) (checker : Json) : Finding where
  path := .string file
  line := .int line
  description := "ECS: " ++ ruleName checker
  severity := .string "minor"
  rule := "Ecs." ++ ruleName checker

def diffIssues (workingDir : Text) : Text × Json → Except Fault (List Issue)
  | (file, diff) => do
    let line ← Output.estimatedLine (← diffText diff)
    (← checkers diff).mapM fun checker => (finding file line checker).toIssue workingDir

def decode (output : Text) : Decoded (Text × Json) :=
  Decoded.ofFileMap "diffs" (Output.withoutBanner "\x7b" output)

def outcome (workingDir output : Text) : Except Fault Outcome :=
  (decode output).outcome output (diffIssues workingDir)

end LintReport.Ecs
