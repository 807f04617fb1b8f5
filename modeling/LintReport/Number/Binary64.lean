import LintReport.Number.Whole

/-!
Double-precision numbers, held exactly as a sign, a mantissa and a power of two. A ratio of
natural numbers is rounded to the nearest double, a tie to the even mantissa.
-/
namespace LintReport

/-- A double. A finite one is `mantissa * 2 ^ exponent`, where the mantissa is below `2 ^ 53`, the
exponent is at least `-1074`, and the mantissa reaches `2 ^ 52` unless the exponent is `-1074`. -/
inductive Binary64 where
  | nan
  | infinite (negative : Bool)
  | finite (negative : Bool) (mantissa : Nat) (exponent : Int)
deriving DecidableEq, Repr

namespace Binary64

def minExponent : Int := -1074

def maxExponent : Int := 971

def precision : Nat := 53

/-- The whole number nearest to `num / den`, a tie going to the even one. -/
def nearest (num den : Nat) : Nat :=
  let below := num / den
  let rest := 2 * (num % den)
  if rest > den ∨ (rest = den ∧ below % 2 = 1) then below + 1 else below

/-- `num * 2 ^ (-e) / den` as a ratio of natural numbers. -/
def scaled (num den : Nat) (e : Int) : Nat × Nat :=
  match e with
  | .ofNat k => (num, den * Nat.pow 2 k)
  | .negSucc k => (num * Nat.pow 2 (k + 1), den)

/-- The double whose mantissa and exponent have been found, unless the exponent is too large. -/
def pack (negative : Bool) (mantissa : Nat) (exponent : Int) : Binary64 :=
  let (mantissa, exponent) :=
    if mantissa = Nat.pow 2 precision then (Nat.pow 2 (precision - 1), exponent + 1)
    else (mantissa, exponent)
  if exponent > maxExponent then infinite negative else finite negative mantissa exponent

/-- The double nearest to `num / den`, a tie going to the even mantissa. -/
def round (negative : Bool) (num den : Nat) : Binary64 :=
  if num = 0 then
    finite negative 0 minExponent
  else
    let guess : Int := (num.log2 : Int) - den.log2 - precision
    let (a, b) := scaled num den guess
    let exponent := max minExponent (if a / b < Nat.pow 2 precision then guess else guess + 1)
    let (a, b) := scaled num den exponent
    pack negative (nearest a b) exponent

/-- The double nearest to `digits * 10 ^ exponent`. Exponents far outside the range are not
computed with. -/
def ofDecimal (negative : Bool) (digits : Nat) (exponent : Int) : Binary64 :=
  let magnitude := ((Nat.toDigits 10 digits).length : Int) + exponent
  if digits = 0 ∨ magnitude < -400 then
    finite negative 0 minExponent
  else if magnitude > 400 then
    infinite negative
  else
    match exponent with
    | .ofNat k => round negative (digits * Nat.pow 10 k) 1
    | .negSucc k => round negative digits (Nat.pow 10 (k + 1))

def ofInt (n : Int) : Binary64 := round (n < 0) n.natAbs 1

def ratio (mantissa : Nat) (exponent : Int) : Nat × Nat :=
  match exponent with
  | .ofNat k => (mantissa * Nat.pow 2 k, 1)
  | .negSucc k => (mantissa, Nat.pow 2 (k + 1))

def isZero : Binary64 → Bool
  | finite _ mantissa _ => mantissa == 0
  | _ => false

/-- The whole part of a finite double, its fraction cut off. -/
def truncate? : Binary64 → Option Int
  | finite negative mantissa exponent =>
    let (num, den) := ratio mantissa exponent
    some (if negative then -(num / den : Nat) else (num / den : Nat))
  | _ => none

def toInt? : Binary64 → Option Int
  | finite negative mantissa exponent =>
    let (num, den) := ratio mantissa exponent
    if num % den = 0 then
      some (if negative then -(num / den : Nat) else (num / den : Nat))
    else
      none
  | _ => none

end Binary64

end LintReport
