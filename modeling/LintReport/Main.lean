import LintReport.CommandLine.Run
import LintReport.Workspace.Snapshot

/-!
The program. It reads the snapshot of a session from its standard input, runs in it with its own
arguments, writes the report to its standard output and everything else to its standard error.
-/
namespace LintReport

def exitFault : UInt32 := 1

/-- What a run prints on its two channels, and its exit code. -/
def runIn (session : Session) (arguments : List Text) : Text × Text × UInt32 :=
  match EStateM.run (CommandLine.run arguments) session with
  | .ok ending s => (ending.output, s.shown, UInt32.ofNat ending.exitCode)
  | .error fault s => ([], s.shown ++ fault.message ++ [.scalar '\n'], exitFault)

end LintReport

open LintReport in
def main (arguments : List String) : IO UInt32 := do
  let input ← (← IO.getStdin).readToEnd
  let snapshot := (Json.read input).toOption.getD (.object [])
  let (output, diagnostics, exitCode) :=
    runIn (Snapshot.session snapshot) (arguments.map Text.ofString)
  IO.print output.toStringLossy
  IO.eprint diagnostics.toStringLossy
  return exitCode
