import LintReport.Tool.Command

/-!
The interpreter of the JavaScript tools: the first of the configured ones that can say its version.
-/
namespace LintReport.Interpreter

/-- The first of some interpreters that runs. Those behind it are not tried. -/
def firstRunning (limit : Option Seconds) : List Text → Action (Option Text)
  | [] => return none
  | candidate :: candidates => do
    let r ← Action.execute [candidate, "--version"] limit none
    if r.exitCode = 0 then
      return some candidate
    else
      firstRunning limit candidates

def detect (s : Settings) : Action (Option Text) := do
  let found ← firstRunning s.limit s.interpreters
  Action.say { level := .debug, logger := Logger.interpreters,
               message := "JS runtime: " ++ found.getD "None" }
  return found

end LintReport.Interpreter
