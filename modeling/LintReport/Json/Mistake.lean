import LintReport.Number.Whole

/-!
Why a JSON text cannot be read: a mistake at a spot in it, or a whole number with too many digits.
Its spot is found from what is left of the text there, and told as a line, a column and a count of
units.
-/
namespace LintReport.Json

/-- What is wrong at a spot. -/
inductive Mistake where
  | byteOrderMark
  | noValue
  | noName
  | noColon
  | noComma
  /-- The string that starts here has no end. -/
  | openString
  | controlCharacter
  | unknownEscape
  | brokenNumberedEscape
  | extraText
deriving DecidableEq, Repr

def Mistake.message : Mistake → Text
  | byteOrderMark => "Unexpected UTF-8 BOM (decode using utf-8-sig)"
  | noValue => "Expecting value"
  | noName => "Expecting property name enclosed in double quotes"
  | noColon => "Expecting ':' delimiter"
  | noComma => "Expecting ',' delimiter"
  | openString => "Unterminated string starting at"
  | controlCharacter => "Invalid control character at"
  | unknownEscape => "Invalid \\escape"
  | brokenNumberedEscape => "Invalid \\uXXXX escape"
  | extraText => "Extra data"

inductive ReadError where
  /-- A mistake, with `left` units of the text from there on. -/
  | malformed (mistake : Mistake) (left : Nat)
  | oversizedNumber (digits : Nat)
deriving DecidableEq, Repr

/-- A spot in a text: how many units stand before it, in which line it is, and where in the line,
both counted from one. -/
structure Spot where
  position : Nat
  line : Nat
  column : Nat
deriving DecidableEq, Repr

namespace Spot

def behind (s : Text) : Spot where
  position := s.length
  line := s.count (.scalar '\n') + 1
  column := (s.reverse.takeWhile (· ≠ .scalar '\n')).length + 1

/-- The spot in a text with `left` units from there on. -/
def before (left : Nat) (s : Text) : Spot := behind (s.take (s.length - left))

def toText (p : Spot) : Text :=
  Text.ofString "line " ++ Text.ofNat p.line ++ Text.ofString " column " ++ Text.ofNat p.column ++
    Text.ofString " (char " ++ Text.ofNat p.position ++ Text.ofString ")"

end Spot

end LintReport.Json
