import LintReport.Finding.Basic
import LintReport.Output.Annotation
import LintReport.Output.Banner
import LintReport.Output.SourceSpan
import LintReport.Session.Basic
import LintReport.Tool.Reporter

/-!
Biome has two reporters. One prints annotations, the other a document with a list of diagnostics,
which give places as byte spans: the lines of a span come from the source in the diagnostic, or else
from the file itself. A source that cannot be read only loses the last line.
-/
namespace LintReport.Biome

/-- The severities that only Biome knows. -/
def severityNames : List (Text × Text) :=
  [("fatal", "critical"), ("information", "info"), ("hint", "info")]

def severity : Json → Json
  | .string word =>
    match severityNames.find? fun n => n.1 = word.lower with
    | some (_, name) => .string name
    | none => .string word
  | v => v

/-! ### Annotations -/

/-- A property of an annotation that is a number; null if it is none. -/
def number (name : Text) (a : Output.Annotation) : Json := (a.number? name).elim .null .int

/-- A property of an annotation; null if it is missing. -/
def property (name : Text) (a : Output.Annotation) : Json :=
  (Table.get? name a.properties).elim .null .string

def annotationFinding (a : Output.Annotation) : Finding where
  path := property "file" a
  line := number "line" a
  description := Finding.describe "Biome" (.string a.message)
  severity := severity (.string a.severity)
  rule := Finding.qualify "Biome" (property "title" a)
  column := number "col" a
  endLine := number "endLine" a
  endColumn := number "endColumn" a

/-- An output without annotations is fine if Biome found nothing or printed nothing. -/
def annotationOutcome (workingDir output : Text) (exitCode : Int) : Except Fault Outcome :=
  match Output.Annotation.parseAll output with
  | [] => .ok (if exitCode ≠ 0 ∧ output.trimBlanks ≠ [] then .failed output else .ok [])
  | found => (found.mapM fun a => (annotationFinding a).toIssue workingDir).map .ok

/-! ### Diagnostics -/

/-- A byte offset; truth values count as 0 and 1. -/
def offset? : Json → Option Int
  | .int n => some n
  | .bool b => some (if b then 1 else 0)
  | _ => none

def ends? : Json → Option (Json × Json)
  | .array [start, stop] =>
    if (offset? start).isSome && (offset? stop).isSome then some (start, stop) else none
  | _ => none

def span? (v : Json) : Option (Int × Int) := do
  let (start, stop) ← ends? v
  return (← offset? start, ← offset? stop)

/-- A diagnostic whose parts have the right shapes. -/
structure Diagnostic where
  entry : Json
  file : Json
  span : Option (Int × Int)
  source : Option Text

/-- An object, where a blank value counts as an empty one. -/
def objectOrEmpty? (v : Json) : Option Json :=
  if v.isBlank then some (.object []) else v.members?.map .object

def diagnostic? (entry : Json) : Option Diagnostic := do
  let _ ← entry.members?
  let location ← objectOrEmpty? (entry.member "location")
  let path ← objectOrEmpty? (location.member "path")
  let source := match location.member "sourceCode" with
    | .string s => some s
    | _ => none
  return { entry, file := path.member "file", span := span? (location.member "span"), source }

def decode (output : Text) : Decoded Diagnostic :=
  match Output.document? (Output.withoutBanner "\x7b" output) with
  | none => .spoiled
  | some document =>
    match document.member "diagnostics" with
    | .array entries => .ofEntries (entries.map fun entry => (diagnostic? entry).map ([·]))
    | _ => .spoiled

/-- The bytes of a source file, if it has a name and can be read. -/
def readSource (sourceDir : Path) (file : Json) : Action (Option Bytes) := do
  if file.isBlank then
    return none
  let .string name := file | throw (.notAPath file)
  let path := sourceDir ++ Path.ofText name
  let s ← get
  match ← Action.ofExcept (s.workspace.read s.directory path) with
  | .ok bytes => return some bytes
  | .error failure =>
    Action.say
      { level := .debug, logger := Logger.sources,
        message := "Cannot read " ++ path.toText ++ Text.ofString " for line resolution: " ++
          failure.name }
    return none

/-- The first and the last line of a diagnostic. -/
def sourceLines (sourceDir : Path) (d : Diagnostic) : Action (Nat × Option Nat) :=
  match d.span, d.source with
  | none, _ => return (1, none)
  | some (start, stop), some source =>
    match source.encode with
    | .ok bytes => return Output.spanLines bytes start stop
    | .error fault => throw (.unencodable fault)
  | some (start, stop), none => do
    match ← readSource sourceDir d.file with
    | some bytes => return Output.spanLines bytes start stop
    | none => return (1, none)

def Diagnostic.finding (d : Diagnostic) (lines : Nat × Option Nat) : Finding where
  path := d.file
  line := .int lines.1
  description := Finding.describe "Biome" (d.entry.member "description")
  severity := severity (d.entry.member "severity")
  rule := Finding.qualify "Biome" (d.entry.member "category")
  endLine := lines.2.elim .null fun n => .int n

def Diagnostic.issue (workingDir : Text) (sourceDir : Path) (d : Diagnostic) : Action Issue := do
  let lines ← sourceLines sourceDir d
  Action.ofExcept ((d.finding lines).toIssue workingDir)

def documentOutcome (workingDir : Text) (sourceDir : Path) (output : Text) : Action Outcome := do
  let d := decode output
  let issues ← d.items.mapM (Diagnostic.issue workingDir sourceDir)
  return if d.intact then .ok issues else .failed output

def outcome (reporter : Reporter) (workingDir : Text) (sourceDir : Path) (exitCode : Int)
    (output : Text) : Action Outcome :=
  match reporter with
  | .annotations => Action.ofExcept (annotationOutcome workingDir output exitCode)
  | .document => documentOutcome workingDir sourceDir output

end LintReport.Biome
