import LintReport.Text.Printable

/-!
Quoted text, as names and values appear inside messages. The quote is an apostrophe, unless the
text holds an apostrophe and no double quote. What is not printable is written by its number, in
the shortest of three widths.
-/
namespace LintReport

/-- The last `width` hexadecimal digits of a number, in lower case. -/
def hexDigits : (width n : Nat) → List Char
  | 0, _ => []
  | width + 1, n => hexDigits width (n / 16) ++ [Nat.digitChar (n % 16)]

namespace Text

def numbered (c : CodePoint) : Text :=
  if c.value < 0x100 then ofString "\\x" ++ ofChars (hexDigits 2 c.value)
  else if c.value < 0x10000 then ofString "\\u" ++ ofChars (hexDigits 4 c.value)
  else ofString "\\U" ++ ofChars (hexDigits 8 c.value)

/-- The text with numbers for the units that are not ASCII. -/
def inAscii (s : Text) : Text := s.flatMap fun c => if c.value < 0x80 then [c] else numbered c

def quotedUnit (quote c : CodePoint) : Text :=
  if c = quote ∨ c = .scalar '\\' then [.scalar '\\', c]
  else if c = .scalar '\t' then "\\t"
  else if c = .scalar '\n' then "\\n"
  else if c = .scalar '\r' then "\\r"
  else if c.isPrintable then [c]
  else numbered c

def quoted (s : Text) : Text :=
  let quote : CodePoint :=
    if .scalar '\'' ∈ s ∧ .scalar '"' ∉ s then .scalar '"' else .scalar '\''
  quote :: s.flatMap (quotedUnit quote) ++ [quote]

end Text

end LintReport
