import LintReport.Digest
import LintReport.Path
import LintReport.Position
import LintReport.Severity

/-!
Issues, the entries of a report. Each carries a fingerprint: the digest of its relative path,
its position and its description, so that an issue is recognised again wherever the project lies.
-/
namespace LintReport

/-- Where an issue lies: its file, as seen from the working directory and as the tool named it, and
its position there. -/
structure Location where
  path : Text
  fullPath : Text
  position : Position
deriving DecidableEq, Repr

def defaultCategories : List Text := ["Clarity", "Style"]

/-- An entry of a report. -/
structure Issue where
  checkName : Text
  description : Text
  severity : Severity
  location : Location
  categories : List Text := defaultCategories
  kind : Text := "issue"
  fingerprint : Text
deriving DecidableEq, Repr

/-- The severity that a value names in a report. Here no other words count. -/
def Severity.checked (v : Json) : Except Fault Severity :=
  match v with
  | .string name =>
    match Severity.ofName? name with
    | some severity => .ok severity
    | none => .error (.unknownSeverity v)
  | v => .error (.unknownSeverity v)

namespace Issue

def fingerprintBase (path : Text) (position : Position) (description : Text) : Text :=
  path ++ .scalar '[' :: position.key ++ .scalar ']' :: description

/-- The fingerprint of a finding, which half a surrogate pair in it, or a number
that cannot be written, makes impossible. -/
def fingerprintOf (path : Text) (position : Position) (description : Text) : Except Fault Text :=
  if position.isWritable then
    match (fingerprintBase path position description).encode with
    | .ok bytes => .ok (Digest.sha1 bytes)
    | .error fault => .error (.unencodable fault)
  else
    .error .unwritableNumber

/-- The issue with its fingerprint filled in, unless it has one already. -/
def sealed (issue : Issue) : Except Fault Issue :=
  if issue.fingerprint = [] then do
    let fingerprint ← fingerprintOf issue.location.path issue.location.position issue.description
    return { issue with fingerprint }
  else
    return issue

def toJson (issue : Issue) : Json :=
  .object
    [("type", .string issue.kind),
     ("check_name", .string issue.checkName),
     ("description", .string issue.description),
     ("categories", .array (issue.categories.map .string)),
     ("severity", .string issue.severity.name),
     ("location", .object
       [("path", .string issue.location.path),
        ("full_path", .string issue.location.fullPath),
        ("positions", issue.location.position.toJson)]),
     ("fingerprint", .string issue.fingerprint)]

end Issue

/-- A path as seen from the working directory. Paths elsewhere, and relative ones, stay. -/
def relativePath (workingDir path : Text) : Text :=
  let opening := Text.trimRight (· = .scalar '/') workingDir ++ [.scalar '/']
  (Text.after? opening path).getD path

end LintReport
