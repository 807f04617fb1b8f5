import LintReport.Number.Whole
import LintReport.Proofs.Text.Lines

/-!
Whole numbers as they are read and written. The digits at the start of a text are read up to the
first unit that is none. A number is written in digits, behind a minus sign if it is negative, so it
can be read off what is written, and nothing of it ends a line.
-/
namespace LintReport.Text

/-! ### Digits at the start of a text -/

section Digits

variable {digit? : CodePoint → Option Nat} {digits : Text}

theorem spanDigits_eq (digit? : CodePoint → Option Nat) (s : Text) :
    ∃ digits, s = digits ++ (spanDigits digit? s).2 ∧ (∀ c ∈ digits, (digit? c).isSome) ∧
      (spanDigits digit? s).1 = digits.filterMap digit? ∧
      digits.length = (spanDigits digit? s).1.length := by
  induction s with
  | nil => exact ⟨[], rfl, nofun, rfl, rfl⟩
  | cons c s ih =>
    rw [spanDigits]
    cases hc : digit? c with
    | none => exact ⟨[], rfl, nofun, rfl, rfl⟩
    | some d =>
      obtain ⟨digits, hs, hdigits, hvalues, hlength⟩ := ih
      refine ⟨c :: digits, congrArg (c :: ·) hs, ?_, ?_, congrArg (· + 1) hlength⟩
      · exact List.forall_mem_cons.mpr ⟨by rw [hc]; rfl, hdigits⟩
      · rw [List.filterMap_cons_some hc, ← hvalues]

/-- Digits before a text are read together with those at its start. -/
theorem spanDigits_append (hdigits : ∀ c ∈ digits, (digit? c).isSome) (rest : Text) :
    spanDigits digit? (digits ++ rest) =
      (digits.filterMap digit? ++ (spanDigits digit? rest).1, (spanDigits digit? rest).2) := by
  induction digits with
  | nil => rfl
  | cons c digits ih =>
    obtain ⟨hc, hdigits⟩ := List.forall_mem_cons.mp hdigits
    obtain ⟨d, hd⟩ := Option.isSome_iff_exists.mp hc
    rw [List.cons_append, spanDigits, hd, List.filterMap_cons_some hd, ih hdigits]
    rfl

/-- At least the digits that stand at the start are read. -/
theorem length_le_spanDigits (hdigits : ∀ c ∈ digits, (digit? c).isSome) (rest : Text) :
    digits.length ≤ (spanDigits digit? (digits ++ rest)).1.length := by
  rw [spanDigits_append hdigits, List.length_append,
    List.filterMap_length_eq_length.mpr hdigits]
  exact Nat.le_add_right _ _

end Digits

/-! ### Written numbers -/

theorem value_of_mem_ofNat {n : Nat} {c : CodePoint} (h : c ∈ ofNat n) :
    0x30 ≤ c.value ∧ c.value ≤ 0x39 := by
  obtain ⟨d, hd, rfl⟩ := List.mem_map.mp h
  exact value_of_isDigit (Nat.isDigit_of_mem_toDigits (by decide) (by decide) hd)

theorem value_of_mem_ofInt {n : Int} {c : CodePoint} (h : c ∈ ofInt n) :
    0x2D ≤ c.value ∧ c.value ≤ 0x39 := by
  have hnat {n : Nat} (h : c ∈ ofNat n) : 0x2D ≤ c.value ∧ c.value ≤ 0x39 :=
    ⟨Nat.le_trans (by decide) (value_of_mem_ofNat h).1, (value_of_mem_ofNat h).2⟩
  cases n with
  | ofNat n => exact hnat h
  | negSucc n =>
    rcases List.mem_cons.mp h with rfl | h
    · decide
    · exact hnat h

theorem isLine_ofInt (n : Int) : IsLine (ofInt n) := fun _ hc =>
  not_endsLine (Nat.le_trans (by decide) (value_of_mem_ofInt hc).1)
    (Nat.lt_of_le_of_lt (value_of_mem_ofInt hc).2 (by decide))

theorem isLine_ofNat (n : Nat) : IsLine (ofNat n) := isLine_ofInt (.ofNat n)

theorem ofInt_ne_nil (n : Int) : ofInt n ≠ [] := by
  cases n with
  | ofNat n => exact mt List.map_eq_nil_iff.mp Nat.toDigits_ne_nil
  | negSucc n => exact List.cons_ne_nil _ _

theorem ofNat_injective : Function.Injective ofNat := by
  intro m n h
  have hdigits : Nat.toDigits 10 m = Nat.toDigits 10 n :=
    (List.map_inj_right fun _ _ hc => CodePoint.scalar.inj hc).mp h
  rw [← Nat.ofDigitChars_ten_toDigits (n := m), hdigits, Nat.ofDigitChars_ten_toDigits]

theorem ofInt_injective : Function.Injective ofInt := by
  have hsign (m n : Nat) : ofNat m ≠ .scalar '-' :: ofNat n := by
    intro h
    have hminus := (value_of_mem_ofNat (h ▸ List.mem_cons_self : .scalar '-' ∈ ofNat m)).1
    exact absurd hminus (by decide)
  intro m n h
  cases m with
  | ofNat m =>
    cases n with
    | ofNat n => exact congrArg Int.ofNat (ofNat_injective h)
    | negSucc n => exact absurd h (hsign m (n + 1))
  | negSucc m =>
    cases n with
    | ofNat n => exact absurd h.symm (hsign n (m + 1))
    | negSucc n =>
      have hsucc : m + 1 = n + 1 := ofNat_injective (List.cons.inj h).2
      exact congrArg Int.negSucc (Nat.succ.inj hsucc)

end LintReport.Text
