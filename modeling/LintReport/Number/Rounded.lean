import LintReport.Number.Shortest

/-!
Doubles with a chosen number of digits. The digits are those of the exact value, rounded to the
nearest, a tie going to the even digit. There are three layouts: a number of places behind the
point, a power of ten behind the digits, and whichever of the two suits a number of digits.
-/
namespace LintReport.Binary64

/-- A layout, which says what a count of digits means. -/
inductive Layout where
  /-- Digits behind the point. -/
  | places
  /-- Digits behind the point, which stands behind the first digit. -/
  | power
  /-- All digits. Zeros at the end of a fraction are left out. -/
  | general
deriving DecidableEq, Repr

/-- A whole part and a fraction. The point goes with an empty fraction, unless it is to stay. -/
def pointed (keepPoint : Bool) (whole fraction : List Char) : List Char :=
  whole ++ if fraction.isEmpty && !keepPoint then [] else '.' :: fraction

def placesOf (keepPoint : Bool) (num den places : Nat) : List Char :=
  let ds := Nat.toDigits 10 (nearest (num * Nat.pow 10 places) den)
  let ds := List.replicate (places + 1 - ds.length) '0' ++ ds
  pointed keepPoint (ds.take (ds.length - places)) (ds.drop (ds.length - places))

/-- The first `count` digits of a ratio, and the power of ten of the first one. -/
def firstDigits (num den count : Nat) : List Char × Int :=
  if num = 0 then
    (List.replicate count '0', 0)
  else
    let point := decimalPoint num den
    let (a, b) := overPowerOfTen num den (point - count)
    let ds := Nat.toDigits 10 (nearest a b)
    (ds.take count, if count < ds.length then point else point - 1)

def powerOf (keepPoint : Bool) (num den places : Nat) : List Char :=
  let (ds, exponent) := firstDigits num den (places + 1)
  pointed keepPoint (ds.take 1) (ds.drop 1) ++ powerMark exponent

/-- A ratio with a number of digits, one at least: with a power of ten below `10 ^ -4` and where the
digits end before the point. -/
def generalOf (keepPoint : Bool) (num den count : Nat) : List Char :=
  let count := max count 1
  let (ds, exponent) := firstDigits num den count
  let fraction (ds : List Char) : List Char := if keepPoint then ds else (dropZeros ds).1
  if exponent < -4 ∨ count ≤ exponent then
    pointed keepPoint (ds.take 1) (fraction (ds.drop 1)) ++ powerMark exponent
  else if exponent < 0 then
    pointed keepPoint ['0'] (fraction (List.replicate (-exponent - 1).toNat '0' ++ ds))
  else
    pointed keepPoint (ds.take (exponent.toNat + 1)) (fraction (ds.drop (exponent.toNat + 1)))

/-- The spelling of a double without its sign. Where the point is to stay, so do the zeros. -/
def magnitude (layout : Layout) (keepPoint : Bool) (count : Nat) : Binary64 → Text
  | nan => "nan"
  | infinite _ => "inf"
  | finite _ mantissa exponent =>
    let (num, den) := ratio mantissa exponent
    Text.ofChars <| match layout with
      | .places => placesOf keepPoint num den count
      | .power => powerOf keepPoint num den count
      | .general => generalOf keepPoint num den count

/-- Is it below zero, or the zero below it? -/
def isNegative : Binary64 → Bool
  | nan => false
  | infinite negative | finite negative _ _ => negative

end LintReport.Binary64
