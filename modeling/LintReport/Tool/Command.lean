import LintReport.Session.Command
import LintReport.Settings.Basic

/-!
How the tools are started. A PHP tool is a program of its own, and a JavaScript tool is a script for
an interpreter. Rules are named on the command line only when they are not those that the tool goes
by anyway.
-/
namespace LintReport.Tool

def isEnabled (s : Settings) (t : Tool) : Bool := s.enabled t

/-- The path of a tool below the directory of the tools of its group. -/
def place : Tool → Text
  | psalm => "psalm"
  | phpStan => "phpstan"
  | phpCs => "phpcs"
  | ecs => "ecs"
  | esLint => "eslint/bin/eslint.js"
  | styleLint => "stylelint/bin/stylelint.mjs"
  | biome => "@biomejs/biome/bin/biome"

/-- The file that a tool is started from. -/
def binary (s : Settings) (t : Tool) : Path :=
  match t.group with
  | .php => s.toolDir ++ Path.ofText t.place
  | .js => s.jsRoot.below "node_modules" ++ Path.ofText t.place

/-- The directory that the PHP tools look at, unless they look at the current one anyway. -/
def phpTargets (s : Settings) : List Text :=
  if s.phpDir = [] ∨ s.phpDir = [.scalar '.'] then [] else [s.phpDir]

def withValue (name : String) (value : Text) : Text := Text.ofString name ++ .scalar '=' :: value

/-- Arguments that name the rules, if they are not those that the tool goes by anyway. -/
def ruleArguments (s : Settings) (t : Tool) (arguments : Text → List Text) : List Text :=
  if s.rules t = t.defaultRules then [] else arguments (s.rules t)

/-- Arguments that are given unless the tools may use their caches. -/
def unlessCached (s : Settings) (argument : Text) : List Text := if s.cache then [] else [argument]

def arguments (s : Settings) : Tool → List Text
  | psalm =>
    unlessCached s "--no-cache" ++ ("--memory-limit=-1" : Text) ::
      ("--output-format=json" : Text) ::
      ruleArguments s psalm (fun r => [withValue "--config" r]) ++ phpTargets s
  | phpStan =>
    ("analyse" : Text) :: ("--memory-limit=-1" : Text) :: ("--no-interaction" : Text) ::
      ("--error-format=json" : Text) ::
      ruleArguments s phpStan (fun r => [withValue "--configuration" r]) ++ phpTargets s
  | phpCs =>
    unlessCached s "--no-cache" ++ ("--report=json" : Text) ::
      withValue "--standard" (s.rules phpCs) ::
      [if s.phpDir = [] then [.scalar '.'] else s.phpDir]
  | ecs =>
    unlessCached s "--clear-cache" ++ ("--memory-limit=-1" : Text) ::
      ("--output-format=json" : Text) ::
      ruleArguments s ecs (fun r => [withValue "--config" r]) ++ phpTargets s
  | esLint =>
    ("--format=json" : Text) :: ruleArguments s esLint (fun r => ["--config", r]) ++ [s.jsDir]
  | styleLint =>
    ("--formatter=json" : Text) :: ruleArguments s styleLint (fun r => ["--config", r]) ++
      [s.styleLintFiles]
  | biome =>
    ("lint" : Text) :: withValue "--reporter" s.reporter.name ::
      ruleArguments s biome (fun r => ["--config-path", r]) ++ [s.jsDir]

/-- The command that runs a tool. PHP tools need no interpreter. -/
def command (s : Settings) (interpreter : Option Text) (t : Tool) : List Text :=
  match t.group with
  | .php => (t.binary s).toText :: t.arguments s
  | .js => interpreter.getD [] :: (t.binary s).toText :: t.arguments s

def runningMessage (s : Settings) (t : Tool) : Text :=
  match t with
  | phpCs => "Running PHP CodeSniffer with standard " ++ s.rules phpCs ++ Text.ofString "..."
  | t => "Running " ++ t.title ++ Text.ofString "..."

/-- Is there a file to start a tool from, seen from a directory? -/
def isAvailable (w : Workspace) (directory : Path) (s : Settings) (t : Tool) : Bool :=
  w.isFile (Path.resolve directory (t.binary s))

/-- What a tool left behind, or why it was not started. -/
structure RawResult where
  exitCode : Int
  output : Text
  refusal : Option Text := none

def noInterpreter : Text := "No JS runtime found: no Bun, no Node"

/-- Runs a tool in the current directory. A script without an interpreter is not started. -/
def run (s : Settings) (interpreter : Option Text) (t : Tool) : Action RawResult :=
  match t.group, interpreter with
  | .js, none => return ⟨exitNotFound, [], some noInterpreter⟩
  | _, _ => do
    let r ← Action.execute (t.command s interpreter) s.limit none
    return ⟨r.exitCode, r.output, none⟩

end LintReport.Tool
