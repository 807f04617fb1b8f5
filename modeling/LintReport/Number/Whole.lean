import LintReport.Text.Blank
import LintReport.Text.Digit

/-!
Whole numbers in decimal. A number is read from digits of any script, with a sign before them and
single underscores between them; more than 4300 digits are refused, leading zeros included. A
number is written in ASCII digits, without leading zeros.
-/
namespace LintReport

/-- The longest run of digits that is read as one number. -/
def maxDigits : Nat := 4300

def ofDigits (ds : List Nat) : Nat := ds.foldl (10 * · + ·) 0

namespace Text

def ofNat (n : Nat) : Text := ofChars (Nat.toDigits 10 n)

def ofInt : Int → Text
  | .ofNat n => ofNat n
  | .negSucc n => .scalar '-' :: ofNat (n + 1)

/-- The digits at the start of a text, and what follows them. -/
def spanDigits (digit? : CodePoint → Option Nat) : Text → List Nat × Text
  | [] => ([], [])
  | c :: s =>
    match digit? c with
    | some d => (d :: (spanDigits digit? s).1, (spanDigits digit? s).2)
    | none => ([], c :: s)

/-- The digits of a text that consists of digits and single underscores between them. -/
def digitRun? (digit? : CodePoint → Option Nat) : Text → Option (List Nat)
  | [] => none
  | [c] => (digit? c).map ([·])
  | c :: .scalar '_' :: s => do
    let d ← digit? c
    let ds ← digitRun? digit? s
    return d :: ds
  | c :: s => do
    let d ← digit? c
    let ds ← digitRun? digit? s
    return d :: ds

/-- Is there a minus sign before the text, and what follows a sign of either kind? -/
def splitSign : Text → Bool × Text
  | .scalar '-' :: s => (true, s)
  | .scalar '+' :: s => (false, s)
  | s => (false, s)

/-- The integer that a text spells, white space around it left out. -/
def toInt? (s : Text) : Option Int :=
  let (negative, body) := splitSign (trimWhiteSpace s)
  match digitRun? CodePoint.digit? body with
  | some ds =>
    if ds.length ≤ maxDigits then
      some (if negative then -(ofDigits ds : Int) else ofDigits ds)
    else
      none
  | none => none

end Text

end LintReport
