import LintReport.Text.Utf8

/-!
Lines of a byte span. A tool that counts bytes gives the place of a finding as a span of the
source, and the source is read once to learn the lines of its two ends. CR LF, a CR on its own and
an LF on its own each end a line.
-/
namespace LintReport.Output

/-- Does a line end with this byte, when `rest` follows it? -/
def endsLine (b : UInt8) (rest : Bytes) : Bool :=
  b = 0x0A ∨ (b = 0x0D ∧ rest.head? ≠ some 0x0A)

/-- The line that is reached after at most `left` further bytes, and the line of the byte number
`start` if it was met on the way. `offset` is the number of the next byte. -/
def scanLines (start : Int) (offset line : Nat) (found : Option Nat) :
    (left : Nat) → Bytes → Nat × Option Nat
  | 0, _ => (line, found)
  | _ + 1, [] => (line, found)
  | left + 1, b :: rest =>
    scanLines start (offset + 1) (if endsLine b rest then line + 1 else line)
      (if (offset : Int) = start then some line else found) left rest

/-- The first and the last line of a span. Without both ends it is line 1 and an unknown last
line. -/
def spanLines (source : Bytes) : (start stop : Option Int) → Nat × Option Nat
  | some start, some stop =>
    let (line, found) := scanLines start 0 1 none (min stop source.length).toNat source
    (found.getD line, some line)
  | _, _ => (1, none)

end LintReport.Output
