import LintReport.Number.Binary64
import LintReport.Text.LetterCase

/-!
Numbers as people write them in settings. White space around a number does not count, a sign may
stand before it, and single underscores may stand between its digits. A whole number may have zeros
at its start, with any underscores among them, and a fraction of zeros. A double may be infinite or
no number at all.
-/
namespace LintReport

inductive WholeNumberError where
  | malformed
  | tooLong
deriving DecidableEq, Repr

namespace CodePoint

def isLeadingDigit (c : CodePoint) : Bool := c.isAsciiDigit && c ≠ scalar '0'

end CodePoint

namespace Text

/-- What follows the zeros and underscores at the start of a number; `last` is the unit before. The
last of them stays before a point or an end. What follows may have a minus sign of its own. -/
def behindZeros? (last : CodePoint) : Text → Option Text
  | [] => some [last]
  | c :: s =>
    if c = .scalar '0' ∨ c = .scalar '_' then behindZeros? c s
    else if c.isLeadingDigit ∨ c = .scalar '-' then some (c :: s)
    else if c = .scalar '.' then some (last :: c :: s)
    else none

/-- A number that starts with a digit, without zeros at its start. -/
def withoutZeros? : Text → Option Text
  | [] => none
  | c :: s =>
    if c.isLeadingDigit then some (c :: s)
    else if c = .scalar '0' then behindZeros? c s
    else none

/-- What stands before a fraction of zeros; the whole text if there is none. -/
def withoutZeroFraction (s : Text) : Text :=
  match cut? [.scalar '.'] s with
  | some (whole, c :: fraction) =>
    if (c :: fraction).all (· = .scalar '0') then whole else s
  | _ => s

/-- The text without its underscores, which stand neither at an end nor next to each other. -/
def withoutUnderscores? (s : Text) : Option Text :=
  let parts := fields (.scalar '_') s
  if parts.any (· = []) then none else some parts.flatten

def splitMinus : Text → Bool × Text
  | .scalar '-' :: body => (true, body)
  | body => (false, body)

/-- Does a number start with more digits than are read? Zeros do not start one. -/
def startsTooLong (s : Text) : Bool :=
  let ds := (spanDigits CodePoint.asciiDigit? (splitMinus s).2).1
  ds.head? ≠ some 0 && maxDigits < ds.length

/-- The integer that plain digits spell, a minus sign before them or not. A zero stands alone. -/
def plainInteger? (s : Text) : Option Int :=
  let (negative, body) := splitMinus s
  let (ds, rest) := spanDigits CodePoint.asciiDigit? body
  if ds = [] ∨ rest ≠ [] ∨ maxDigits < ds.length ∨ (ds.head? = some 0 ∧ ds ≠ [0]) then
    none
  else
    some (if negative then -(ofDigits ds : Int) else ofDigits ds)

/-- The whole number that a text without white space around it and without a plus sign spells, its
minus sign apart. -/
def unsignedWhole? (negative : Bool) (s : Text) : Option Int :=
  (withoutZeros? s).bind fun body =>
    let body := withoutZeroFraction body
    let body := (withoutUnderscores? body).getD body
    plainInteger? (if negative then .scalar '-' :: body else body)

/-- The whole number that a text spells. Too many digits are told apart from other mistakes only
where nothing stands before them. -/
def toWholeNumber (s : Text) : Except WholeNumberError Int :=
  if s.startsTooLong then
    .error .tooLong
  else
    let (negative, body) := splitSign (trimWhiteSpace s)
    match unsignedWhole? negative body with
    | some n => .ok n
    | none => .error .malformed

/-- The exponent at the end of a number, if the text is one or is empty. -/
def exponent? : Text → Option Int
  | [] => some 0
  | c :: s =>
    if c = .scalar 'e' ∨ c = .scalar 'E' then
      let (negative, body) := splitSign s
      (body.mapM CodePoint.asciiDigit?).bind fun ds =>
        if ds = [] then none else some (if negative then -(ofDigits ds : Int) else ofDigits ds)
    else
      none

/-- The double that an unsigned decimal spells, its point before, between or behind its digits. -/
def decimal? (negative : Bool) (s : Text) : Option Binary64 :=
  let (whole, r) := s.spanDigits CodePoint.asciiDigit?
  let (fraction, r) := match r with
    | .scalar '.' :: r => Text.spanDigits CodePoint.asciiDigit? r
    | r => ([], r)
  if whole = [] ∧ fraction = [] then
    none
  else
    (exponent? r).map fun e =>
      .ofDecimal negative (ofDigits (whole ++ fraction)) (e - fraction.length)

def plainBinary64? (s : Text) : Option Binary64 :=
  let (negative, body) := splitSign s
  let word := asciiLower body
  if word = "inf" ∨ word = "infinity" then some (.infinite negative)
  else if word = "nan" then some .nan
  else decimal? negative body

/-- The double that a text spells. White space and underscores do not go together. -/
def toBinary64? (s : Text) : Option Binary64 :=
  (plainBinary64? (trimWhiteSpace s)).or ((withoutUnderscores? s).bind plainBinary64?)

end Text

end LintReport
