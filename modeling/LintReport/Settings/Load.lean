import LintReport.Json.Reader
import LintReport.Settings.Basic
import LintReport.Text.Lines

/-!
Where settings come from: the project's Composer file, the environment, and the command line, each
outranking the one before it. The two roots come from the command line alone, so that a project
cannot move them.
-/
namespace LintReport.Settings

def sectionName : Text := "gitlab-code-quality"

/-- A name in the section without the blanks around it and in lower case. -/
def normalName (name : Text) : Text := name.trimBlanks.lower

/-- The section of a Composer file, with normal names; of several with one normal name the last one
counts. -/
def sectionOf (document : Json) : Table Json :=
  match (document.member "extra").member sectionName with
  | .object members => Table.ofList (members.map fun m => (normalName m.1, m.2))
  | _ => []

/-- The JSON document in a file, or the name of the error. -/
def documentOf (bytes : Bytes) : Except Text Json :=
  match Utf8.decode? bytes with
  | none => .error "UnicodeDecodeError"
  | some text =>
    match Json.read text.unifyNewlines with
    | .ok document => .ok document
    | .error (.malformed _ _) => .error "JSONDecodeError"
    | .error (.oversizedNumber _) => .error "ValueError"

/-- The section of the Composer file in a directory. A file that is not there or cannot be read
counts as one without the section. -/
def readComposerFile (directory : Path) : Action (Table Json) := do
  let file := directory.below "composer.json"
  let s ← get
  match s.workspace.file? (Path.resolve s.directory file) with
  | none => return []
  | some bytes =>
    Action.say { level := .debug, logger := Logger.configuration,
                 message := "Loading Composer config file: " ++ file.toText }
    match documentOf bytes with
    | .ok document => return sectionOf document
    | .error name =>
      Action.say { level := .warning, logger := Logger.configuration,
                   message := "Cannot read Composer config file " ++ file.toText ++
                     .scalar ':' :: .scalar ' ' :: name }
      return []

/-- The section with the time limit of the environment, if the section has none. -/
def withTimeout (environment : Table Text) (members : Table Json) : Table Json :=
  match Table.get? "CODE_QUALITY_TIMEOUT" environment, Table.get? "timeout" members with
  | some (c :: s), none => Table.insert "timeout" (.string (c :: s)) members
  | _, _ => members

/-- The section with the values that the command line gives. -/
def overridden (overrides members : Table Json) : Table Json :=
  overrides.foldl (fun members (name, v) =>
    match v with
    | .null => members
    | v => Table.insert name v members) members

/-- The directory of the tools, as it is seen from the current directory; nothing if it is left to
the rule for paths. -/
def resolvedBinDir? (directory : Path) (members : Table Json) : Except Fault (Option Path) :=
  match Table.get? "bin_dir" members with
  | none => .ok none
  | some v =>
    if v.isBlank then .ok none else
      match v with
      | .string s => (Workspace.resolve? directory (.ofText s)).map some
      | v => .error (.notAPath v)

def without (names : List Text) (members : Table Json) : Table Json :=
  members.filter fun m => !names.contains m.1

/-- The settings that a section gives for two roots, seen from a directory. -/
def ofSection (directory phpRoot jsRoot : Path) (members : Table Json) :
    Except Fault Settings := do
  let binDir ← resolvedBinDir? directory members
  let roots : List Text := ["php_root", "js_root"]
  let resolved : List Text := if binDir.isSome then ["bin_dir"] else []
  let settings ← ofTable directory (without (roots ++ resolved) members)
  return { settings with phpRoot, jsRoot, binDir := binDir.or settings.binDir }

/-- A root as it is seen from a directory; the directory itself if none is given. -/
def rootFrom (directory : Path) : Option Text → Except Fault Path
  | some (c :: s) => Workspace.resolve? directory (.ofText (c :: s))
  | _ => .ok directory

def load (phpRoot jsRoot : Option Text) (overrides : Table Json) : Action Settings := do
  let directory := (← get).directory
  let phpRoot ← Action.ofExcept (rootFrom directory phpRoot)
  let jsRoot ← Action.ofExcept (rootFrom directory jsRoot)
  let members ← readComposerFile phpRoot
  let members := overridden overrides (withTimeout (← get).workspace.environment members)
  Action.ofExcept (ofSection directory phpRoot jsRoot members)

end LintReport.Settings
