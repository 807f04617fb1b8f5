import LintReport.Fault
import LintReport.Path

/-!
What a run finds around it: files and directories, the environment, and the programs that can be
started. Nothing in a workspace is a link, so a path is looked up by its resolved form: double dots
take back the name before them, whether there is such a directory or not. A workspace sets no limit
to the length of a name or of a path, and closes no directory to anybody, so a file that is looked
for is found or is not there.
-/
namespace LintReport

/-- What a program does when it is started. -/
structure Process where
  exitCode : Int := 0
  output : Bytes := []
  /-- It does not end before a time limit, if there is one. -/
  hangs : Bool := false
  /-- It prints nothing before a time limit, though it would print later. -/
  silent : Bool := false
deriving Repr

/-- What a session finds around it. -/
structure Workspace where
  /-- Regular files by their resolved paths. -/
  files : List (Path × Bytes) := []
  /-- Directories that exist without a file in them. -/
  directories : List Path := []
  environment : Table Text := []
  /-- Programs by the name of the tool that they run. -/
  tools : Table Process := []
  /-- Programs that only say which version they are, by the word that starts them. -/
  versions : Table Process := []

inductive ReadFailure where
  | missing
  | directory
deriving DecidableEq, Repr

def ReadFailure.name : ReadFailure → Text
  | missing => "FileNotFoundError"
  | directory => "IsADirectoryError"

namespace Process

/-- What the program has printed when its time is up. -/
def interrupted (p : Process) : Bytes := if p.silent then [] else p.output

end Process

namespace Workspace

def file? (w : Workspace) (p : Path) : Option Bytes :=
  (w.files.find? fun f => f.1 = p).map (·.2)

def isFile (w : Workspace) (p : Path) : Bool := (w.file? p).isSome

/-- Is there a directory at a resolved path? Every root exists, and so does every directory on the
way to a file or to a directory. -/
def isDirectory (w : Workspace) (p : Path) : Bool :=
  p.isRoot || w.directories.any (fun d => d = p || p ∈ d.ancestors) ||
    w.files.any fun f => p ∈ f.1.ancestors

/-- Why a name cannot be that of a file, if it cannot. It starts at a position in a path. -/
def nameFault? (position : Nat) (name : Text) : Option Fault :=
  match Text.unnameable? position name with
  | some fault => some (.unencodable fault)
  | none => if .scalar '\x00' ∈ name then some .nulInPath else none

/-- The first fault of some names, which are looked up one after the other below a path that is seen
from a directory. -/
def lookupFault? (directory before : Path) : List Text → Option Fault
  | [] => none
  | name :: names =>
    let here : Path := { before with names := before.names ++ [name] }
    let position := (Path.resolve directory here).toText.length - name.length
    (nameFault? position name).or (lookupFault? directory here names)

/-- The resolved path that a path means when it is seen from a directory, or the fault of one of its
names. Each of them is looked up, also one that double dots behind it take back. -/
def resolve? (directory p : Path) : Except Fault Path :=
  match lookupFault? directory { p with names := [] } p.names with
  | some fault => .error fault
  | none => .ok (Path.resolve directory p)

/-- The bytes of the file at a path that is seen from a directory. -/
def read (w : Workspace) (directory p : Path) : Except Fault (Except ReadFailure Bytes) :=
  if p.names.any (.scalar '\x00' ∈ ·) then
    .error .nulInPath
  else
    let resolved := Path.resolve directory p
    match w.file? resolved with
    | some bytes => .ok (.ok bytes)
    | none => .ok (.error (if w.isDirectory resolved then .directory else .missing))

def write (w : Workspace) (p : Path) (bytes : Bytes) : Workspace :=
  { w with files := w.files.filter (·.1 ≠ p) ++ [(p, bytes)] }

def remove (w : Workspace) (p : Path) : Workspace :=
  { w with files := w.files.filter (·.1 ≠ p) }

/-- The tools that are started by their own names. All others are scripts, and the word that
starts them comes first. -/
def standalone : List Text := ["psalm", "phpstan", "phpcs", "ecs"]

def process? (w : Workspace) : (command : List Text) → Option Process
  | [] => none
  | [first, argument] =>
    if argument = Text.ofString "--version" then
      Table.get? first w.versions
    else
      Table.get? (toolName first (some argument)) w.tools
  | first :: arguments => Table.get? (toolName first arguments.head?) w.tools
where
  toolName (first : Text) (argument? : Option Text) : Text :=
    let name := Path.baseName first
    match argument? with
    | some argument => if name ∈ standalone then name else Path.baseName argument
    | none => name

end Workspace

end LintReport
