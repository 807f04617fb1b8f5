import LintReport.Number.Binary64

/-!
The decimal spelling of a double: the fewest digits that read back as the same double, and among
those the digits nearest to it.
-/
namespace LintReport.Binary64

/-- The least `p` with `num / den < 10 ^ p`, or one less when the ratio is a power of ten below
one. -/
def decimalPoint (num den : Nat) : Int :=
  if den ≤ num then
    (Nat.toDigits 10 (num / den)).length
  else
    1 - ((Nat.toDigits 10 (den / num)).length : Int)

def overPowerOfTen (num den : Nat) (s : Int) : Nat × Nat :=
  match s with
  | .ofNat k => (num, den * Nat.pow 10 k)
  | .negSucc k => (num * Nat.pow 10 (k + 1), den)

/-- The point of the grid of multiples of `10 ^ s` that reads back as the double and is nearest to
it, if a neighbour on the grid reads back at all. A tie goes to the even point. -/
def onGrid? (mantissa : Nat) (exponent : Int) (s : Int) : Option Nat :=
  let (num, den) := ratio mantissa exponent
  let (a, b) := overPowerOfTen num den s
  let below := a / b
  let readsBack (n : Nat) : Bool := ofDecimal false n s == finite false mantissa exponent
  match readsBack below, readsBack (below + 1) with
  | true, true =>
    if 2 * (a % b) < b ∨ (2 * (a % b) = b ∧ below % 2 = 0) then some below else some (below + 1)
  | true, false => some below
  | false, true => some (below + 1)
  | false, false => none

/-- Search for the coarsest grid with a hit, from `places` digits on. -/
def search (mantissa : Nat) (exponent point : Int) (places : Nat) : (left : Nat) → Nat × Int
  | 0 => (0, 0)
  | left + 1 =>
    match onGrid? mantissa exponent (point - places) with
    | some n => (n, point - places)
    | none => search mantissa exponent point (places + 1) left

/-- The fewest digits of a finite positive double, with the power of ten that they count. Seventeen
digits always suffice. -/
def shortest (mantissa : Nat) (exponent : Int) : Nat × Int :=
  let (num, den) := ratio mantissa exponent
  search mantissa exponent (decimalPoint num den) 1 17

/-- Digits without the zeros at their end, and how many those were. -/
def dropZeros (ds : List Char) : List Char × Nat :=
  let kept := (ds.reverse.dropWhile (· = '0')).reverse
  (kept, ds.length - kept.length)

/-- A power of ten behind the digits that it multiplies, signed and of at least two digits. -/
def powerMark (exponent : Int) : List Char :=
  let size := Nat.toDigits 10 exponent.natAbs
  ['e', if exponent < 0 then '-' else '+'] ++ List.replicate (2 - size.length) '0' ++ size

/-- Digits with the decimal point after the first `point` of them: positional from `10 ^ -4` up to
`10 ^ 16`, with a fraction always shown, and otherwise with a power of ten. -/
def layout (ds : List Char) (point : Int) : Text :=
  let exponent := point - 1
  if -4 ≤ exponent ∧ exponent < 16 then
    if point ≤ 0 then
      Text.ofChars ('0' :: '.' :: List.replicate (-point).toNat '0' ++ ds)
    else
      let whole := ds.take point.toNat
      let fraction := ds.drop point.toNat
      Text.ofChars (whole ++ List.replicate (point.toNat - whole.length) '0' ++
        '.' :: (if fraction.isEmpty then ['0'] else fraction))
  else
    Text.ofChars (ds.take 1 ++ (if ds.length ≤ 1 then [] else '.' :: ds.drop 1) ++
      powerMark exponent)

def shown : Binary64 → Text
  | nan => "nan"
  | infinite negative => if negative then "-inf" else "inf"
  | finite negative mantissa exponent =>
    let magnitude : Text :=
      if mantissa = 0 then "0.0" else
        let (n, s) := shortest mantissa exponent
        let (ds, zeros) := dropZeros (Nat.toDigits 10 n)
        layout ds (ds.length + zeros + s)
    if negative then .scalar '-' :: magnitude else magnitude

end LintReport.Binary64
