import LintReport.Json.Reader
import LintReport.Session.Basic

/-!
Snapshots. A session can be recorded as a JSON object: `files` from paths to bodies, `dirs`, `cwd`,
`env`, and the processes `tools` and `runtimes` with their `exit` code, their `output`, and `hang`
and `no_output` for those that do not end. A body is a text or an object with the bytes in `hex`.
All paths are seen from `/project`.
-/
namespace LintReport.Snapshot

/-- The directory from which relative paths are seen. -/
def home : Path := ⟨.slash, ["project"]⟩

def ofHex : Text → Bytes
  | high :: low :: s =>
    match Json.hexDigit? high, Json.hexDigit? low with
    | some a, some b => UInt8.ofNat (a * 16 + b) :: ofHex s
    | _, _ => ofHex s
  | _ => []

def body : Json → Bytes
  | .string s => s.flatMap CodePoint.utf8
  | v =>
    match v.member "hex" with
    | .string s => ofHex s
    | _ => []

def isTrue (v : Json) : Bool := !v.isBlank

def process (v : Json) : Process where
  exitCode := match v.member "exit" with
    | .int n => n
    | _ => 0
  output := match v.member? "output" with
    | some output => body output
    | none => body v
  hangs := isTrue (v.member "hang")
  silent := isTrue (v.member "no_output")

/-- The texts among the members of an object. -/
def texts (v : Json) : Table Text :=
  (v.members?.getD []).filterMap fun (name, v) =>
    match v with
    | .string s => some (name, s)
    | _ => none

def processes (v : Json) : Table Process :=
  (v.members?.getD []).map fun (name, v) => (name, process v)

def path (s : Text) : Path := Path.resolve home (.ofText s)

def directory (v : Json) : Path :=
  match v.member "cwd" with
  | .string s => path s
  | _ => home

def directories (v : Json) : List Path :=
  match v.member "dirs" with
  | .array items => items.filterMap fun
    | .string s => some (path s)
    | _ => none
  | _ => []

def workspace (v : Json) : Workspace :=
  let start : Workspace :=
    { directories := home :: directory v :: directories v
      environment := texts (v.member "env")
      tools := processes (v.member "tools")
      versions := processes (v.member "runtimes") }
  ((v.member "files").members?.getD []).foldl
    (fun w (name, content) => w.write (path name) (body content)) start

def session (v : Json) : Session :=
  { workspace := workspace v, directory := directory v }

end LintReport.Snapshot
