import Mathlib.Algebra.Ring.Nat
import LintReport.Number.Binary64

/-!
Bounds of the numbers that are read. A whole number from a text has no more digits than may be
written again, and neither has the whole part of a double, however it was spelled.
-/
namespace LintReport

/-! ### Digits -/

theorem ofDigits_lt {ds : List Nat} (h : ∀ d ∈ ds, d < 10) : ofDigits ds < 10 ^ ds.length := by
  have hfold (ds : List Nat) (h : ∀ d ∈ ds, d < 10) (n : Nat) :
      ds.foldl (10 * · + ·) n < (n + 1) * 10 ^ ds.length := by
    induction ds generalizing n with
    | nil => simp
    | cons d ds ih =>
      obtain ⟨hd, hds⟩ := List.forall_mem_cons.mp h
      calc ds.foldl (10 * · + ·) (10 * n + d)
          < (10 * n + d + 1) * 10 ^ ds.length := ih hds _
        _ ≤ ((n + 1) * 10) * 10 ^ ds.length := Nat.mul_le_mul_right _ (by omega)
        _ = (n + 1) * 10 ^ (d :: ds).length := by
          rw [List.length_cons, Nat.pow_succ, Nat.mul_assoc, Nat.mul_comm 10]
  simpa [ofDigits] using hfold ds h 0

theorem ofDigits_lt_pow {ds : List Nat} {k : Nat} (h : ∀ d ∈ ds, d < 10) (hk : ds.length ≤ k) :
    ofDigits ds < Nat.pow 10 k :=
  Nat.lt_of_lt_of_le (ofDigits_lt h) (Nat.pow_le_pow_right (by decide) hk)

/-- A number of one digit may be written. -/
theorem lt_pow_maxDigits {n : Nat} (h : n < 10) : n < Nat.pow 10 maxDigits := by
  have hself {k : Nat} (hk : k ≠ 0) : 10 ≤ Nat.pow 10 k := Nat.le_self_pow hk 10
  exact Nat.lt_of_lt_of_le h (hself (by decide))

namespace Text

theorem lt_ten_of_digitRun? {s : Text} {ds : List Nat}
    (h : digitRun? CodePoint.digit? s = some ds) : ∀ d ∈ ds, d < 10 := by
  have hcons {c : CodePoint} {s : Text} {ds : List Nat}
      (ih : ∀ {ds}, digitRun? CodePoint.digit? s = some ds → ∀ d ∈ ds, d < 10)
      (h : (do
        let d ← c.digit?
        let ds ← digitRun? CodePoint.digit? s
        return d :: ds) = some ds) : ∀ d ∈ ds, d < 10 := by
    obtain ⟨d, hd, h⟩ := Option.bind_eq_some_iff.mp h
    obtain ⟨ds', hds, heq⟩ := Option.bind_eq_some_iff.mp h
    cases heq
    exact List.forall_mem_cons.mpr ⟨CodePoint.digit?_lt_ten hd, ih hds⟩
  fun_induction digitRun? CodePoint.digit? s generalizing ds with
  | case1 => cases h
  | case2 c =>
    obtain ⟨d, hd, rfl⟩ := Option.map_eq_some_iff.mp h
    exact List.forall_mem_singleton.mpr (CodePoint.digit?_lt_ten hd)
  | case3 c s ih => exact hcons ih h
  | case4 c s _ _ ih => exact hcons ih h

/-- What a text spells has no more digits than may be written. -/
theorem natAbs_toInt?_lt {s : Text} {n : Int} (h : s.toInt? = some n) :
    n.natAbs < Nat.pow 10 maxDigits := by
  unfold toInt? at h
  dsimp only at h
  split at h
  · next ds hds =>
    split at h
    · next hlength =>
      have hlt := ofDigits_lt_pow (lt_ten_of_digitRun? hds) hlength
      have hn := Option.some.inj h
      subst hn
      split
      · rwa [Int.natAbs_neg, Int.natAbs_natCast]
      · rwa [Int.natAbs_natCast]
    · cases h
  · cases h

end Text

namespace Binary64

/-- The whole part of `mantissa * 2 ^ exponent`. -/
def whole (mantissa : Nat) (exponent : Int) : Nat :=
  (ratio mantissa exponent).1 / (ratio mantissa exponent).2

theorem truncate?_eq_some {x : Binary64} {n : Int} (h : x.truncate? = some n) :
    ∃ negative mantissa exponent, x = finite negative mantissa exponent ∧
      n.natAbs = whole mantissa exponent := by
  cases x with
  | finite negative mantissa exponent =>
    refine ⟨negative, mantissa, exponent, rfl, ?_⟩
    have hn : (if negative then -(whole mantissa exponent : Int)
        else whole mantissa exponent) = n := Option.some.inj h
    rw [← hn]
    split
    · rw [Int.natAbs_neg, Int.natAbs_natCast]
    · rw [Int.natAbs_natCast]
  | _ => cases h

theorem whole_le (mantissa : Nat) (exponent : Int) :
    whole mantissa exponent ≤ mantissa * 2 ^ exponent.toNat := by
  cases exponent with
  | ofNat k => exact Nat.div_le_self _ _
  | negSucc k =>
    refine Nat.le_trans (Nat.div_le_self _ _) ?_
    simp [ratio]

theorem whole_zero (exponent : Int) : whole 0 exponent = 0 := by
  have h := whole_le 0 exponent
  rwa [Nat.zero_mul, Nat.le_zero] at h

theorem nearest_le (num den : Nat) : nearest num den ≤ num / den + 1 := by
  unfold nearest
  dsimp only
  split <;> omega

/-- Rounding to a multiple of a power of two adds no more than that power. -/
theorem whole_nearest_le (num : Nat) {den : Nat} (hden : 0 < den) (exponent : Int) :
    whole (nearest (scaled num den exponent).1 (scaled num den exponent).2) exponent ≤
      num / den + 2 ^ exponent.toNat := by
  cases exponent with
  | ofNat k =>
    have hnearest := nearest_le num (den * 2 ^ k)
    calc nearest num (den * 2 ^ k) * 2 ^ k / 1
        ≤ (num / (den * 2 ^ k) + 1) * 2 ^ k := by
          rw [Nat.div_one]
          exact Nat.mul_le_mul_right _ hnearest
      _ = num / den / 2 ^ k * 2 ^ k + 2 ^ k := by
          rw [Nat.add_mul, Nat.one_mul, Nat.div_div_eq_div_mul]
      _ ≤ num / den + 2 ^ k := Nat.add_le_add_right (Nat.div_mul_le_self _ _) _
  | negSucc k =>
    have hpow : 0 < 2 ^ (k + 1) := Nat.pow_pos (by decide)
    have hnearest := nearest_le (num * 2 ^ (k + 1)) den
    have hlt : num * 2 ^ (k + 1) / den < (num / den + 1) * 2 ^ (k + 1) := by
      rw [Nat.div_lt_iff_lt_mul hden, Nat.mul_right_comm]
      exact Nat.mul_lt_mul_of_pos_right (Nat.lt_mul_of_div_lt (Nat.lt_succ_self _) hden) hpow
    calc nearest (num * 2 ^ (k + 1)) den / 2 ^ (k + 1)
        ≤ (num / den + 1) * 2 ^ (k + 1) / 2 ^ (k + 1) :=
          Nat.div_le_div_right (Nat.le_trans hnearest hlt)
      _ = num / den + 1 := Nat.mul_div_cancel _ hpow

theorem pack_eq_finite {negative negative' : Bool} {mantissa mantissa' : Nat}
    {exponent exponent' : Int}
    (h : pack negative mantissa exponent = finite negative' mantissa' exponent') :
    exponent' ≤ maxExponent ∧
      (mantissa' = 2 ^ 52 ∨ mantissa' = mantissa ∧ exponent' = exponent) := by
  unfold pack at h
  split at h
  next m e hm =>
    split at h
    · cases h
    · next he =>
      cases h
      refine ⟨Int.not_lt.mp he, ?_⟩
      split at hm
      · cases hm
        exact .inl rfl
      · cases hm
        exact .inr ⟨rfl, rfl⟩

/-- More than this is not added to a number when it is rounded. -/
def slack : Nat := 2 ^ 52 * 2 ^ maxExponent.toNat

theorem whole_round_le {negative negative' : Bool} {num den mantissa : Nat} {exponent : Int}
    (hden : 0 < den) (h : round negative num den = finite negative' mantissa exponent) :
    whole mantissa exponent ≤ num / den + slack := by
  have hpow {e : Int} (he : e ≤ maxExponent) : 2 ^ e.toNat ≤ 2 ^ maxExponent.toNat :=
    Nat.pow_le_pow_right (by decide) (Int.toNat_le_toNat he)
  have hslack : 2 ^ maxExponent.toNat ≤ slack := Nat.le_mul_of_pos_left _ (Nat.two_pow_pos 52)
  unfold round at h
  split at h
  · cases h
    rw [whole_zero]
    exact Nat.zero_le _
  · dsimp only at h
    obtain ⟨hexponent, hmantissa | ⟨hmantissa, hsame⟩⟩ := pack_eq_finite h
    · subst hmantissa
      calc whole (2 ^ 52) exponent
          ≤ 2 ^ 52 * 2 ^ exponent.toNat := whole_le _ _
        _ ≤ slack := Nat.mul_le_mul_left _ (hpow hexponent)
        _ ≤ num / den + slack := Nat.le_add_left _ _
    · rw [hmantissa, ← hsame]
      calc whole (nearest (scaled num den exponent).1 (scaled num den exponent).2) exponent
          ≤ num / den + 2 ^ exponent.toNat := whole_nearest_le num hden exponent
        _ ≤ num / den + 2 ^ maxExponent.toNat := Nat.add_le_add_left (hpow hexponent) _
        _ ≤ num / den + slack := Nat.add_le_add_left hslack _

theorem lt_pow_length_toDigits (n : Nat) : n < 10 ^ (Nat.toDigits 10 n).length :=
  (Nat.length_toDigits_le_iff (by decide)
    (List.length_pos_iff.mpr Nat.toDigits_ne_nil)).mp (Nat.le_refl _)

section Decimal

variable {digits k limit : Nat}

theorem le_pow_of_length (h : (Nat.toDigits 10 digits).length ≤ limit) :
    digits ≤ Nat.pow 10 limit :=
  Nat.le_of_lt (Nat.lt_of_lt_of_le (lt_pow_length_toDigits digits)
    (Nat.pow_le_pow_right (by decide) h))

theorem mul_pow_le (h : (Nat.toDigits 10 digits).length + k ≤ limit) :
    digits * Nat.pow 10 k ≤ Nat.pow 10 limit := by
  obtain ⟨rest, rfl⟩ := Nat.exists_eq_add_of_le' (Nat.le_trans (Nat.le_add_left ..) h)
  calc digits * Nat.pow 10 k
      ≤ Nat.pow 10 rest * Nat.pow 10 k := Nat.mul_le_mul_right _ (le_pow_of_length (by omega))
    _ = Nat.pow 10 (rest + k) := (Nat.pow_add 10 rest k).symm

theorem div_pow_le (h : (Nat.toDigits 10 digits).length ≤ k + limit) :
    digits / Nat.pow 10 k ≤ Nat.pow 10 limit := by
  refine Nat.div_le_of_le_mul ?_
  calc digits
      ≤ Nat.pow 10 (k + limit) := le_pow_of_length h
    _ = Nat.pow 10 k * Nat.pow 10 limit := Nat.pow_add 10 k limit

end Decimal

theorem pow_pos (k : Nat) : 0 < Nat.pow 10 k := Nat.pow_pos (by decide)

/-- The whole part of a double that was spelled may be written. -/
theorem natAbs_truncate?_ofDecimal_lt {negative : Bool} {digits : Nat} {exponent n : Int}
    (h : (ofDecimal negative digits exponent).truncate? = some n) :
    n.natAbs < Nat.pow 10 maxDigits := by
  obtain ⟨negative', mantissa, exponent', hx, hn⟩ := truncate?_eq_some h
  -- the limit is a variable, so that its power is never computed but here
  obtain ⟨limit, hlimit, hlarge⟩ : ∃ limit, limit = 400 ∧
      Nat.pow 10 limit + slack < Nat.pow 10 maxDigits := ⟨400, rfl, by decide +kernel⟩
  have hrounded {num den : Nat} (hden : 0 < den) (hsmall : num / den ≤ Nat.pow 10 limit)
      (hround : round negative num den = finite negative' mantissa exponent') :
      n.natAbs < Nat.pow 10 maxDigits := by
    rw [hn]
    exact Nat.lt_of_le_of_lt (Nat.le_trans (whole_round_le hden hround)
      (Nat.add_le_add_right hsmall _)) hlarge
  unfold ofDecimal at hx
  dsimp only at hx
  split at hx
  · cases hx
    rw [hn, whole_zero]
    exact pow_pos maxDigits
  · split at hx
    · cases hx
    · next hmagnitude =>
      cases exponent with
      | ofNat k =>
        refine hrounded Nat.one_pos ?_ hx
        rw [Nat.div_one]
        exact mul_pow_le (by simp only [Int.ofNat_eq_natCast] at hmagnitude; omega)
      | negSucc k => exact hrounded (pow_pos (k + 1)) (div_pow_le (by omega)) hx

end Binary64

end LintReport
