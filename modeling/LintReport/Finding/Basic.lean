import LintReport.Issue
import LintReport.Output.Decoded

/-!
Findings, as the tools report them, and what a tool's output amounts to: the issues of its findings,
or nothing but the output itself if a part of it has a wrong shape. The findings before that part
have been turned into issues by then, so a fault in one of them comes first.
-/
namespace LintReport

/-- A finding as a tool reported it. Everything in it but the description and the rule may be of
any kind. -/
structure Finding where
  path : Json
  line : Json := .null
  description : Text
  severity : Json := .string "major"
  rule : Text := []
  column : Json := .null
  endLine : Json := .null
  endColumn : Json := .null

namespace Finding

/-- The description of a finding: the name of the tool and its message. -/
def describe (tool : Text) (message : Json) : Text :=
  tool ++ .scalar ':' :: .scalar ' ' :: message.shownOrNothing

/-- A rule under the name of its tool; nothing if the tool named no rule. -/
def qualify (tool : Text) (rule : Json) : Text :=
  if rule.isBlank then [] else tool ++ .scalar '.' :: rule.shown

/-- Where a finding lies; line 1 if the tool does not say. -/
def position (f : Finding) : Except Fault Position := do
  let line ← Position.known f.line
  let column ← Position.known f.column
  let endLine ← Position.known f.endLine
  let endColumn ← Position.known f.endColumn
  return { line := line.getD 1, column, endLine, endColumn }

/-- The issue of a finding. Without a rule it is named by its description. -/
def toIssue (workingDir : Text) (f : Finding) : Except Fault Issue := do
  let position ← f.position
  let fullPath := f.path.shownOrNothing
  Issue.sealed
    { checkName := if f.rule = [] then f.description else f.rule
      description := f.description
      severity := Severity.ofJson f.severity
      location := { path := relativePath workingDir fullPath, fullPath, position }
      fingerprint := [] }

end Finding

/-- What the output of a tool amounts to: issues, or nothing but the output itself. -/
inductive Outcome where
  | ok (issues : List Issue)
  | failed (output : Text)
deriving DecidableEq, Repr

namespace Decoded

variable {α : Type}

/-- All issues of the items, or the output if an entry was spoiled. -/
def outcome (output : Text) (issues : α → Except Fault (List Issue)) (d : Decoded α) :
    Except Fault Outcome := do
  let found ← d.items.mapM issues
  return if d.intact then .ok found.flatten else .failed output

end Decoded

def Decoded.findingOutcome (workingDir output : Text) (d : Decoded Finding) :
    Except Fault Outcome :=
  d.outcome output fun f => (f.toIssue workingDir).map ([·])

end LintReport
