import LintReport.Text.Basic

/-!
Lines of a text. Ten units and the pair CR LF end a line, so splitting a text and joining the
lines with line feeds turns every other ending into a line feed and drops the last one.
-/
namespace LintReport

/-- The units that end a line. -/
def CodePoint.endsLine (c : CodePoint) : Bool :=
  c.inRanges [(0x0A, 0x0D), (0x1C, 0x1E), (0x85, 0x85), (0x2028, 0x2029)]

namespace Text

/-- The lines of a text, without their endings. -/
def lines : Text → List Text
  | [] => []
  | .scalar '\r' :: .scalar '\n' :: s => [] :: lines s
  | c :: s =>
    if c.endsLine then
      [] :: lines s
    else
      match lines s with
      | [] => [[c]]
      | line :: rest => (c :: line) :: rest

/-- The lines one after the other, with a line feed between neighbours. -/
def joinLines (ls : List Text) : Text := join [.scalar '\n'] ls

/-- Every CR LF and every other CR becomes a line feed. -/
def unifyNewlines : Text → Text
  | [] => []
  | .scalar '\r' :: .scalar '\n' :: s => .scalar '\n' :: unifyNewlines s
  | .scalar '\r' :: s => .scalar '\n' :: unifyNewlines s
  | c :: s => c :: unifyNewlines s

end Text

end LintReport
