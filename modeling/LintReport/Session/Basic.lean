import LintReport.Diagnostics
import LintReport.Workspace.Basic

/-!
Sessions. A session has a workspace and a current directory, and it keeps what it said and which
commands it ran. An action either gives a result or ends in a fault, and leaves a session behind in
both cases.
-/
namespace LintReport

/-- A number of seconds, as it was given. -/
inductive Seconds where
  | whole (n : Int)
  | real (x : Binary64)
deriving Repr

def Seconds.shown : Seconds → Text
  | whole n => Text.ofInt n
  | real x => x.shown

structure Call where
  command : List Text
  directory : Text
  limit : Option Seconds

structure Session where
  workspace : Workspace
  directory : Path
  diagnostics : Diagnostics := .initial
  records : List Record := []
  /-- The records as they were shown. -/
  shown : Text := []
  calls : List Call := []

abbrev Action := EStateM Fault Session

namespace Action

/-- Ends in a fault, or goes on. -/
def ofExcept {α : Type} : Except Fault α → Action α
  | .ok a => pure a
  | .error fault => throw fault

/-- Keeps a record, and shows it if the threshold lets it through. -/
def say (r : Record) : Action Unit :=
  modify fun s =>
    { s with records := s.records ++ [r], shown := s.shown ++ s.diagnostics.render r }

/-- Shows records from now on as the environment and a verbosity ask for. -/
def configure (verbosity : Int) : Action Unit := do
  let s ← get
  let diagnostics ← ofExcept (Diagnostics.configure s.workspace.environment verbosity)
  set { s with diagnostics }

/-- Makes a directory the current one. The path is spelled in the fault as it was given. -/
def changeDirectory (path : Text) : Action Unit := do
  let s ← get
  let target := Path.resolve s.directory (.ofText path)
  if s.workspace.isDirectory target then
    set { s with directory := target }
  else
    throw (if s.workspace.isFile target then .notADirectory path else .noSuchDirectory path)

/-- Makes a directory the current one, unless it is already. -/
def enter (directory : Path) : Action Unit := do
  if (← get).directory ≠ directory then
    changeDirectory directory.toText

/-- An action after which the session is back in the directory where it was before, whether the
action ended in a fault or not. A fault on the way back hides that of the action. -/
def returning {α : Type} (action : Action α) : Action α := do
  let start := (← get).directory
  let result ← try
      let a ← action
      pure (Except.ok a)
    catch fault => pure (Except.error fault)
  enter start
  ofExcept result

end Action

end LintReport
