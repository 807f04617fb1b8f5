import LintReport.Text.Basic

/-!
Paths, as a root and the names below it. Empty names and single dots vanish when a path is read;
double dots stay until the path is resolved, which needs no file system because there are no links.
Exactly two slashes at the start are a root of their own, and stay one in a path that is resolved.
-/
namespace LintReport

inductive Path.Root where
  | relative
  | slash
  | twoSlashes
deriving DecidableEq, Repr

structure Path where
  root : Path.Root
  names : List Text
deriving DecidableEq, Repr

namespace Path

def Root.toText : Root → Text
  | relative => []
  | slash => [.scalar '/']
  | twoSlashes => [.scalar '/', .scalar '/']

def rootOf : Text → Root
  | .scalar '/' :: .scalar '/' :: .scalar '/' :: _ => .slash
  | .scalar '/' :: .scalar '/' :: _ => .twoSlashes
  | .scalar '/' :: _ => .slash
  | _ => .relative

def ofText (s : Text) : Path where
  root := rootOf s
  names := (Text.fields (.scalar '/') s).filter fun name => name ≠ [] ∧ name ≠ [.scalar '.']

/-- The spelling of a path; nothing is spelled as a dot. -/
def toText (p : Path) : Text :=
  match p.root, p.names with
  | .relative, [] => [.scalar '.']
  | root, names => root.toText ++ Text.join [.scalar '/'] names

def isAbsolute (p : Path) : Bool := p.root ≠ .relative

/-- The second path as seen from the first. -/
def append (p q : Path) : Path :=
  if q.isAbsolute then q else { p with names := p.names ++ q.names }

instance : Append Path := ⟨append⟩

def below (p : Path) (s : String) : Path := p ++ ofText s

/-- Names without double dots, as far as there are names before them. `above` holds the names
before, last one first, and `rooted` says that nothing lies above them. -/
def cancel (rooted : Bool) (above : List Text) : List Text → List Text
  | [] => above.reverse
  | name :: names =>
    if name ≠ "..".toList.map .scalar then
      cancel rooted (name :: above) names
    else
      match above with
      | [] => if rooted then cancel rooted [] names else cancel rooted [name] names
      | last :: rest =>
        if last = name then cancel rooted (name :: above) names else cancel rooted rest names

/-- The absolute path that a path means when it is seen from a directory. -/
def resolve (directory p : Path) : Path :=
  let q := directory ++ p
  { q with names := cancel q.isAbsolute [] q.names }

/-- The last name in a spelling. -/
def baseName (s : Text) : Text := (Text.fields (.scalar '/') s).getLastD []

/-- The directories on the way to a path. -/
def ancestors (p : Path) : List Path :=
  (List.range p.names.length).map fun n => { p with names := p.names.take n }

def isRoot (p : Path) : Bool := p.isAbsolute && p.names.isEmpty

end Path

end LintReport
