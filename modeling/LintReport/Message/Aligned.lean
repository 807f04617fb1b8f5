import LintReport.Json.Shown
import LintReport.Message.Place
import LintReport.Text.LetterCase

/-!
Values at places. A value is written as a sign, a mark of its base and a body, and a place that is
wider fills up: with zeros behind the mark, or with blanks on either side.
-/
namespace LintReport.Message

/-- A value in writing. -/
structure Written where
  sign : Text := []
  mark : Text := []
  body : Text
deriving DecidableEq, Repr

namespace Written

def toText (w : Written) : Text := w.sign ++ w.mark ++ w.body

/-- All of it in at least `width` units. Zeros go between mark and body. -/
def aligned (left zeros : Bool) (width : Nat) (w : Written) : Text :=
  let gap := width - w.toText.length
  let blanks := List.replicate gap (.scalar ' ')
  if left then w.toText ++ blanks
  else if zeros then w.sign ++ w.mark ++ List.replicate gap (.scalar '0') ++ w.body
  else blanks ++ w.toText

end Written

/-- The whole number that a value is, a fraction cut off. -/
def whole? : Json → Option Int
  | .int n => some n
  | .bool b => some (if b then 1 else 0)
  | .float x => x.truncate?
  | _ => none

/-- The whole number that a value is, without a fraction to cut off. -/
def index? : Json → Option Int
  | .float _ => none
  | v => whole? v

def real? : Json → Option Binary64
  | .float x => some x
  | v =>
    match (index? v).map Binary64.ofInt with
    | some (.infinite _) => none
    | x => x

def unit? : Json → Option CodePoint
  | .string [c] => some c
  | v => (index? v).bind fun n => if 0 ≤ n ∧ n < 0x110000 then some (.ofNat n.toNat) else none

def inCase (upper : Bool) (s : Text) : Text :=
  if upper then s.asciiUpper else s

namespace Base

def radix : Base → Nat
  | decimal => 10
  | octal => 8
  | hexadecimal => 16

def mark : Base → Text
  | decimal => []
  | octal => "0o"
  | hexadecimal => "0x"

end Base

namespace Place

def sign (p : Place) (negative : Bool) : Text :=
  if negative then [.scalar '-']
  else if p.has '+' then [.scalar '+']
  else if p.has ' ' then [.scalar ' ']
  else []

/-- A whole number of at least as many digits as the precision says. -/
def writeWhole (p : Place) (base : Base) (upper : Bool) (precision : Nat) (n : Int) : Written :=
  let digits := Text.ofChars (Nat.toDigits base.radix n.natAbs)
  { sign := p.sign (n < 0)
    mark := if p.has '#' then inCase upper base.mark else []
    body := List.replicate (precision - digits.length) (.scalar '0') ++ inCase upper digits }

/-- A value in writing, if it is of the kind that the place is for. -/
def write? (p : Place) (precision : Option Nat) (v : Json) : Option Written :=
  let cut (s : Text) : Written := { body := precision.elim s fun n => s.take n }
  match p.kind with
  | .shown => some (cut v.shown)
  | .quoted => some (cut v.quoted)
  | .ascii => some (cut v.quoted.inAscii)
  | .unit => (unit? v).map fun c => { body := [c] }
  | .whole base upper =>
    (if base = .decimal then whole? v else index? v).map fun n =>
      p.writeWhole base upper (precision.getD 0) n
  | .real layout upper =>
    (real? v).map fun x =>
      { sign := p.sign x.isNegative
        body := inCase upper (x.magnitude layout (p.has '#') (precision.getD 6)) }

def isNumeric (p : Place) : Bool :=
  match p.kind with
  | .whole _ _ | .real _ _ => true
  | _ => false

end Place

end LintReport.Message
