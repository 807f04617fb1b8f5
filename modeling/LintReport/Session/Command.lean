import LintReport.Session.Basic
import LintReport.Text.Lines

/-!
Running commands. A command's output is what it prints on both of its channels, as lines joined by
line feeds. An exit code other than zero is no failure here: linters use them to say that they
found something.
-/
namespace LintReport

/-- The exit code of a command that does not exist. -/
def exitNotFound : Int := 127

/-- The exit code of a command whose time was up. -/
def exitTimeout : Int := 124

structure CommandResult where
  exitCode : Int
  output : Text
deriving DecidableEq, Repr

namespace Command

/-- Does an argument need quotes to be told apart from its neighbours? -/
def needsQuotes (argument : Text) : Bool :=
  argument = [] || .scalar ' ' ∈ argument || .scalar '\t' ∈ argument

/-- An argument with its double quotes escaped, `held` backslashes before it and, where a quote
follows at its end, with its last backslashes doubled. -/
def escapeFrom (quoted : Bool) (held : Nat) : Text → Text
  | [] => List.replicate (if quoted then 2 * held else held) (.scalar '\\')
  | .scalar '\\' :: s => escapeFrom quoted (held + 1) s
  | .scalar '"' :: s =>
    List.replicate (2 * held) (.scalar '\\') ++ .scalar '\\' :: .scalar '"' ::
      escapeFrom quoted 0 s
  | c :: s => List.replicate held (.scalar '\\') ++ c :: escapeFrom quoted 0 s

def shownArgument (argument : Text) : Text :=
  if needsQuotes argument then
    .scalar '"' :: escapeFrom true 0 argument ++ [.scalar '"']
  else
    escapeFrom false 0 argument

def shown (command : List Text) : Text := Text.join [.scalar ' '] (command.map shownArgument)

/-- The output of a process that ended by itself. -/
def completed (p : Process) : CommandResult :=
  ⟨p.exitCode, Text.joinLines (Text.unifyNewlines (Utf8.decodeLossy p.output)).lines⟩

def timeoutMessage (limit : Seconds) : Text :=
  "Command timed out after " ++ limit.shown ++ Text.ofString " seconds"

/-- The output of a process whose time was up, and a line that says so. -/
def timedOut (limit : Seconds) (p : Process) : CommandResult :=
  let printed := Text.joinLines (Text.lines (Utf8.decodeLossy p.interrupted))
  ⟨exitTimeout, Text.joinLines ([printed, timeoutMessage limit].filter (· ≠ []))⟩

/-- What comes of a process under a time limit. -/
def finish (limit : Option Seconds) (p : Process) : CommandResult :=
  match limit with
  | some limit => if p.hangs then timedOut limit p else completed p
  | none => completed p

/-- What comes of a command that starts with a word under which there is no program. -/
def notFound (word : Text) : CommandResult :=
  ⟨exitNotFound, Fault.message (.noSuchDirectory word)⟩

def resultIn (w : Workspace) (command : List Text) (limit : Option Seconds) :
    Except Fault CommandResult :=
  match command with
  | [] => .error .emptyCommand
  | word :: _ =>
    .ok (match w.process? command with
      | some p => finish limit p
      | none => notFound word)

end Command

/-- Runs a command in the current directory, unless another one is given. -/
def Action.execute (command : List Text) (limit : Option Seconds) (directory : Option Path) :
    Action CommandResult := do
  say { level := .debug, logger := Logger.commands,
        message := "Executing command: " ++ Command.shown command }
  let s ← get
  let call : Call := ⟨command, (directory.getD s.directory).toText, limit⟩
  set { s with calls := s.calls ++ [call] }
  Action.ofExcept (Command.resultIn s.workspace command limit)

end LintReport
