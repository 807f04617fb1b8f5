import LintReport.Finding.Biome
import LintReport.Finding.Ecs
import LintReport.Finding.EsLint
import LintReport.Finding.PhpCs
import LintReport.Finding.PhpStan
import LintReport.Finding.Psalm
import LintReport.Finding.StyleLint
import LintReport.Pipeline.Interpreter

/-!
The pipeline runs the tools one after the other, group by group, each group in its own root, and
collects their issues. The first tool whose output amounts to no issues, not even to none, ends it;
then nothing that was collected counts. Whatever happens, the session ends up in the directory where
it was.
-/
namespace LintReport

/-- What the output of a tool amounts to, for sources in a directory. -/
def Tool.outcome (s : Settings) (workingDir sourceDir : Path) (t : Tool) (exitCode : Int)
    (output : Text) : Action Outcome :=
  match t with
  | .psalm => Action.ofExcept (Psalm.outcome workingDir.toText output)
  | .phpStan => Action.ofExcept (PhpStan.outcome workingDir.toText output)
  | .phpCs => Action.ofExcept (PhpCs.outcome workingDir.toText output)
  | .ecs => Action.ofExcept (Ecs.outcome workingDir.toText output)
  | .esLint => Action.ofExcept (EsLint.outcome workingDir.toText output)
  | .styleLint => Action.ofExcept (StyleLint.outcome workingDir.toText output)
  | .biome => Biome.outcome s.reporter workingDir.toText sourceDir exitCode output

/-- The tool that ended a pipeline, and what it printed. -/
structure Failure where
  tool : Tool
  output : Text
deriving DecidableEq, Repr

namespace Pipeline

/-- The groups in the order in which they run. -/
def groups : List Tool.Group := [.php, .js]

/-- What all stages of a pipeline have in common. -/
structure Context where
  settings : Settings
  interpreter : Option Text
  workingDir : Path

/-- Does a tool take part: is it switched on and there? -/
def isActive (s : Settings) (t : Tool) : Action Bool := do
  let session ← get
  return t.isEnabled s && t.isAvailable session.workspace session.directory s

/-- What a tool amounts to that takes part. -/
def runTool (c : Context) (t : Tool) : Action Outcome := do
  Action.say { level := .info, logger := Logger.pipeline, message := t.runningMessage c.settings,
               stage := some t.name }
  let raw ← t.run c.settings c.interpreter
  match raw.refusal with
  | some refusal => return .failed refusal
  | none =>
    t.outcome c.settings c.workingDir (c.settings.root t.group) raw.exitCode raw.output

/-- What a stage amounts to. A tool that does not take part has no issues. -/
def runStage (c : Context) (t : Tool) : Action Outcome := do
  if ← isActive c.settings t then
    runTool c t
  else
    return .ok []

/-- The issues of a stage, or a failure, which is said. -/
def stageIssues (c : Context) (t : Tool) : ExceptT Failure Action (List Issue) := do
  match ← runStage c t with
  | .ok issues => return issues
  | .failed output =>
    Action.say { level := .error, logger := Logger.pipeline, message := output,
                 stage := some t.name }
    Action.say { level := .error, logger := Logger.pipeline,
                 message := "Error running " ++ t.title ++ Text.ofString ". See errors above.",
                 stage := some t.name }
    throw ⟨t, output⟩

/-- The issues of the stages of a group, which run in its root. -/
def groupIssues (c : Context) (tools : List Tool) (g : Tool.Group) :
    ExceptT Failure Action (List Issue) := do
  Action.enter (c.settings.root g)
  let found ← (tools.filter fun t => t.group = g).mapM (stageIssues c)
  return found.flatten

def allIssues (c : Context) (tools : List Tool) : ExceptT Failure Action (List Issue) := do
  let found ← groups.mapM (groupIssues c tools)
  return found.flatten

/-- The interpreter, if a tool takes part that needs one. -/
def interpreterFor (s : Settings) (tools : List Tool) : Action (Option Text) := do
  if ← (tools.filter fun t => t.group = .js).anyM (isActive s) then
    Interpreter.detect s
  else
    return none

/-- Runs some tools. Paths are shown as they are seen from a working directory; that is the current
one unless another one is given. -/
def run (s : Settings) (tools : List Tool) (workingDir : Option Path) :
    Action (Except Failure (List Issue)) := do
  let start := (← get).directory
  let interpreter ← interpreterFor s tools
  let c : Context := { settings := s, interpreter, workingDir := workingDir.getD start }
  let result ← Action.returning (allIssues c tools).run
  if let .ok issues := result then
    Action.say { level := .debug, logger := Logger.pipeline,
                 message := "Analysis complete: " ++ Text.ofNat issues.length ++
                   Text.ofString " issues" }
  return result

end Pipeline

end LintReport
