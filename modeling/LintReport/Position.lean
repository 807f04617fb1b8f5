import LintReport.Fault

/-!
Where a finding lies: a line, and a column and an end as far as the tool knew them.
-/
namespace LintReport

structure Position where
  line : Int
  column : Option Int := none
  endLine : Option Int := none
  endColumn : Option Int := none
deriving DecidableEq, Repr

namespace Position

/-- A part of a position in its key, where an unknown part is empty. -/
def keyPart : Option Int → Text
  | none => []
  | some n => Text.ofInt n

def key (p : Position) : Text :=
  Text.join [.scalar ':'] [keyPart (some p.line), keyPart p.column, keyPart p.endLine,
    keyPart p.endColumn]

/-- Can all known parts be written? A number of more than 4300 digits cannot. -/
def isWritable (p : Position) : Bool :=
  [some p.line, p.column, p.endLine, p.endColumn].all fun part =>
    (part.elim 0 Int.natAbs) < Nat.pow 10 maxDigits

def part (name : Text) : Option Int → List (Text × Json)
  | none => []
  | some n => [(name, .int n)]

/-- The position in a report. The end is left out when nothing of it is known. -/
def toJson (p : Position) : Json :=
  let stop := part "line" p.endLine ++ part "column" p.endColumn
  .object (("begin", .object (part "line" (some p.line) ++ part "column" p.column)) ::
    if stop = [] then [] else [("end", .object stop)])

/-- The line or column that a tool gave. A fraction is cut off and a text is read; whatever is
negative or no number is unknown. -/
def known : Json → Except Fault (Option Int)
  | .int n => .ok (nonNegative n)
  | .float (.infinite _) => .error .infinitePosition
  | .float x => .ok (x.truncate?.bind nonNegative)
  | .string s => .ok (s.toInt?.bind nonNegative)
  | _ => .ok none
where
  nonNegative (n : Int) : Option Int := if 0 ≤ n then some n else none

end Position

end LintReport
