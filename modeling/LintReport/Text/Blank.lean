import LintReport.Text.Basic

/-!
Two classes of blanks. The Unicode property `White_Space` has 25 members, and the four
information separators U+001C to U+001F count as blanks too wherever a tool's words are trimmed.
-/
namespace LintReport

def whiteSpaceRanges : List (Nat × Nat) :=
  [(0x9, 0xD), (0x20, 0x20), (0x85, 0x85), (0xA0, 0xA0), (0x1680, 0x1680), (0x2000, 0x200A),
   (0x2028, 0x2029), (0x202F, 0x202F), (0x205F, 0x205F), (0x3000, 0x3000)]

namespace CodePoint

/-- The Unicode property `White_Space`. -/
def isWhiteSpace (c : CodePoint) : Bool := c.inRanges whiteSpaceRanges

/-- White space, or one of the information separators U+001C to U+001F. -/
def isBlank (c : CodePoint) : Bool :=
  c.isWhiteSpace || (0x1C ≤ c.value && c.value ≤ 0x1F)

end CodePoint

namespace Text

def trimBlanks (s : Text) : Text := trim CodePoint.isBlank s

def trimWhiteSpace (s : Text) : Text := trim CodePoint.isWhiteSpace s

end Text

end LintReport
