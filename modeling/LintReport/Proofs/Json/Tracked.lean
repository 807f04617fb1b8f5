import LintReport.Proofs.Json.Kept
import LintReport.Proofs.Json.Surviving

/-!
Texts that go along. Of two such texts one starts with the unit that the other starts with, and they
go along behind it, unless it is a quote. Spaces, words and numbers are the same in both, so only
literals need a closer look.
-/
namespace LintReport.Json

/-- A relation between texts with the same head, which goes on behind every unit but a quote. It may
depend on the unit before the texts. -/
structure Tracks {ι : Type} (behind : CodePoint → ι) (R : ι → Text → Text → Prop) : Prop where
  empty {i : ι} {q : Text} (h : R i [] q) : q = []
  head {i : ι} {c : CodePoint} {s q : Text} (h : R i (c :: s) q) : ∃ t, q = c :: t
  tail {i : ι} {c : CodePoint} {s t : Text} (hc : c ≠ .scalar '"') (h : R i (c :: s) (c :: t)) :
    R (behind c) s t

namespace Tracks

variable {ι : Type} {behind : CodePoint → ι} {R : ι → Text → Text → Prop} {i : ι}
  {c : CodePoint} {p q r s t rest : Text} {v : Json}

theorem of_ne_quote (hR : Tracks behind R) (hc : c ≠ .scalar '"') (h : R i (c :: s) q) :
    ∃ t, q = c :: t ∧ R (behind c) s t := by
  obtain ⟨t, rfl⟩ := hR.head h
  exact ⟨t, rfl, hR.tail hc h⟩

theorem ne_cons (hR : Tracks behind R) (h : R i p q) (hp : ∀ s, p ≠ c :: s) :
    ∀ t, q ≠ c :: t := by
  cases p with
  | nil =>
    rw [hR.empty h]
    exact nofun
  | cons d s =>
    obtain ⟨t, rfl⟩ := hR.head h
    exact fun _ heq => hp s ((List.cons.inj heq).1 ▸ rfl)

theorem opens_eq (hR : Tracks behind R) (h : R i p q) : opens q = opens p := by
  cases p with
  | nil => rw [hR.empty h]
  | cons c s =>
    obtain ⟨t, rfl⟩ := hR.head h
    unfold opens
    split <;> simp_all

theorem hasMark_eq (hR : Tracks behind R) (h : R i p q) : hasMark q = hasMark p := by
  cases p with
  | nil => rw [hR.empty h]
  | cons c s =>
    obtain ⟨t, rfl⟩ := hR.head h
    unfold hasMark
    split <;> simp_all

/-! ### Spaces -/

theorem skipSpace (hR : Tracks behind R) (h : R i s t) :
    ∃ j, R j (skipSpace s) (skipSpace t) ∧ (j = i ∨ ∃ c, j = behind c) := by
  induction s generalizing i t with
  | nil =>
    obtain rfl := hR.empty h
    exact ⟨i, h, .inl rfl⟩
  | cons c s ih =>
    by_cases hc : isSpace c = true
    · obtain ⟨t, rfl, hst⟩ := hR.of_ne_quote (by rintro rfl; cases hc) h
      rw [skipSpace_of_isSpace hc, skipSpace_of_isSpace hc]
      obtain ⟨j, hj, hij⟩ := ih hst
      exact ⟨j, hj, .inr (hij.elim (fun heq => ⟨c, heq⟩) id)⟩
    · obtain ⟨t, rfl⟩ := hR.head h
      rw [skipSpace_of_not_isSpace hc, skipSpace_of_not_isSpace hc]
      exact ⟨i, h, .inl rfl⟩

theorem of_skipSpace (hR : Tracks behind R) (h : R i s t) (hs : Json.skipSpace s = c :: rest)
    (hc : c ≠ .scalar '"') : ∃ rest', Json.skipSpace t = c :: rest' ∧ R (behind c) rest rest' := by
  obtain ⟨j, hskip, -⟩ := hR.skipSpace h
  rw [hs] at hskip
  exact hR.of_ne_quote hc hskip

/-! ### Words, numbers and escapes -/

theorem keepsBare (hR : Tracks behind R) : KeepsBare fun p q => ∃ i, R i p q := by
  rintro c p q hc ⟨i, h⟩
  cases p with
  | nil =>
    rw [hR.empty h]
    exact .inr ⟨nofun, nofun⟩
  | cons d s =>
    by_cases hd : d = c
    · subst hd
      obtain ⟨t, rfl, hst⟩ := hR.of_ne_quote hc.2.2 h
      exact .inl ⟨s, t, rfl, rfl, _, hst⟩
    · have hp : ∀ s', d :: s ≠ c :: s' := fun _ heq => hd (List.cons.inj heq).1
      exact .inr ⟨hp, hR.ne_cons h hp⟩

theorem word (hR : Tracks behind R) (h : R i s t) (hs : opens s = false)
    (hw : readWord? s = some (v, r)) : ∃ r' j, Reads t (.value v) r' ∧ R j r r' := by
  rcases readWord?_kept hR.keepsBare ⟨i, h⟩ with ⟨_, _, r', hword, hword', j, hrest⟩ | ⟨hnone, -⟩
  · rw [hw] at hword
    cases hword
    exact ⟨r', j, .word (by rw [hR.opens_eq h, hs]) hword', hrest⟩
  · rw [hw] at hnone
    cases hnone

theorem number (hR : Tracks behind R) (h : R i s t) (hs : opens s = false)
    (hw : readWord? s = none) (hn : readNumber s = .ok (v, r)) :
    ∃ r' j, Reads t (.value v) r' ∧ R j r r' := by
  obtain ⟨r', hnumber, j, hrest⟩ := readNumber_kept hR.keepsBare ⟨i, h⟩ hn
  rcases readWord?_kept hR.keepsBare ⟨i, h⟩ with ⟨_, _, _, hword, -⟩ | ⟨-, hnone⟩
  · rw [hw] at hword
    cases hword
  · exact ⟨r', j, .number (by rw [hR.opens_eq h, hs]) hnone hnumber, hrest⟩

theorem numbered (hR : Tracks behind R) {a b c d : CodePoint} {n : Nat}
    (hn : hex4? a b c d = some n)
    (h : R i (.scalar '\\' :: .scalar 'u' :: a :: b :: c :: d :: s) q) :
    ∃ t, q = .scalar '\\' :: .scalar 'u' :: a :: b :: c :: d :: t ∧ R (behind d) s t := by
  have hquote {e : CodePoint} {m : Nat} (he : hexDigit? e = some m) : e ≠ .scalar '"' := by
    rintro rfl
    cases he
  simp only [hex4?, bind, Option.bind_eq_some_iff] at hn
  obtain ⟨w, hw, x, hx, y, hy, z, hz, -⟩ := hn
  obtain ⟨_, rfl, hu⟩ := hR.of_ne_quote (by decide) h
  obtain ⟨_, rfl, ha⟩ := hR.of_ne_quote (by decide) hu
  obtain ⟨_, rfl, hb⟩ := hR.of_ne_quote (hquote hw) ha
  obtain ⟨_, rfl, hc⟩ := hR.of_ne_quote (hquote hx) hb
  obtain ⟨_, rfl, hd⟩ := hR.of_ne_quote (hquote hy) hc
  obtain ⟨t, rfl, hst⟩ := hR.of_ne_quote (hquote hz) hd
  exact ⟨t, rfl, hst⟩

end Tracks

end LintReport.Json
