import LintReport.CommandLine.Options
import LintReport.CommandLine.Usage
import LintReport.Pipeline.Basic
import LintReport.Report.Summary
import LintReport.Settings.Load

/-!
A run of the program. The report goes to one channel and everything else to the other, so a run
that fails leaves the channel of the report empty.
-/
namespace LintReport.CommandLine

def exitInvalidSettings : Nat := 10

def exitUsage : Nat := 2

/-- How a run ended, and what it printed as its report. -/
structure Ending where
  exitCode : Nat
  output : Text
deriving DecidableEq, Repr

/-- Shows a text beside the report. -/
def showText (text : Text) : Action Unit := modify fun s => { s with shown := s.shown ++ text }

def sayLine (level : Level) (message : Text) : Action Unit :=
  Action.say { level, logger := Logger.program, message }

def settingsOf (o : Options) : Action (Except (List Problem) Settings) := do
  try
    let settings ← Settings.load (some o.phpRoot) (some o.jsRoot) o.overrides
    return .ok settings
  catch
    | .invalidSettings problems => return .error problems
    | fault => throw fault

/-- The report and the statistics of a run without failures. -/
def finish (s : Settings) (issues : List Issue) : Action Ending := do
  let summary := Summary.ofIssues s issues
  summary.statistics.lines.forM (sayLine .info)
  return ⟨summary.exit.code, summary.document.elim [] (· ++ [.scalar '\n'])⟩

def runWith (o : Options) : Action Ending := do
  Action.configure (o.verbosity.elim 1 fun n => n)
  match ← settingsOf o with
  | .error problems =>
    sayLine .error ("Invalid configuration: " ++ Problem.list problems)
    return ⟨exitInvalidSettings, []⟩
  | .ok settings =>
    Action.configure settings.verbosity
    match ← Pipeline.run settings Tool.all none with
    | .error failure => return ⟨failure.tool.failureCode, []⟩
    | .ok issues => finish settings issues

def run (arguments : List Text) : Action Ending :=
  match request arguments with
  | .help => return ⟨0, helpText⟩
  | .version => return ⟨0, versionText⟩
  | .reject e => do
    showText e.text
    return ⟨exitUsage, []⟩
  | .run o => runWith o

end LintReport.CommandLine
