import LintReport.Text.Blank
import LintReport.Text.LetterCase
import LintReport.Proofs.Text.Trimmed
import Mathlib.Data.List.Induction

/-!
Lower case and blanks. Blanks have no case, nothing else becomes a blank, and no rule looks past a
blank for a neighbour. So it makes no difference whether the blanks around a word are cut off before
or after the word is put in lower case.
-/
namespace LintReport

/-! ### Units -/

namespace CodePoint

/-- The numbers of all blanks. -/
def blankRanges : List (Nat × Nat) := (0x1C, 0x1F) :: whiteSpaceRanges

theorem isBlank_iff {c : CodePoint} :
    c.isBlank = true ↔ ∃ r ∈ blankRanges, r.1 ≤ c.value ∧ c.value ≤ r.2 := by
  simp [isBlank, isWhiteSpace, inRanges, blankRanges, or_comm]

theorem value_ofNat {n : Nat} (h : n < 0x110000) : (ofNat n).value = n := by
  by_cases hsurrogate : 0xD800 ≤ n ∧ n < 0xE000
  · rw [ofNat, dif_pos hsurrogate]
    change 0xD800 + (n - 0xD800) = n
    omega
  · have hvalid : n.isValidChar := by
      unfold Nat.isValidChar
      omega
    rw [ofNat, dif_neg hsurrogate, if_pos h, Char.ofNat, dif_pos hvalid]
    rfl

/-- No run of capitals holds a blank, and none is mapped to one. -/
theorem lowerRuns_apart : ∀ run ∈ lowerRuns, ∀ r ∈ blankRanges,
    (run.2.1 < r.1 ∨ r.2 < run.1) ∧
      ((run.2.1 : Int) + run.2.2.2 < r.1 ∨ r.2 < run.1 + run.2.2.2) := by
  decide +kernel

theorem lowerRuns_within : ∀ run ∈ lowerRuns,
    0 ≤ run.1 + run.2.2.2 ∧ run.2.1 + run.2.2.2 < 0x110000 := by
  decide +kernel

theorem caseRanges_apart : ∀ k ∈ caseIgnorableRanges ++ casedRanges, ∀ r ∈ blankRanges,
    k.2 < r.1 ∨ r.2 < k.1 := by
  decide +kernel

/-- A blank is neither skipped in front of a letter nor a letter. -/
theorem not_case_of_isBlank {c : CodePoint} (h : c.isBlank = true) :
    c.isCaseIgnorable = false ∧ c.isCased = false := by
  obtain ⟨r, hr, hlow, hhigh⟩ := isBlank_iff.mp h
  have hapart {ranges : List (Nat × Nat)} (hsub : ranges ⊆ caseIgnorableRanges ++ casedRanges) :
      c.inRanges ranges = false := by
    refine List.any_eq_false.mpr fun k hk => ?_
    have hdisjoint := caseRanges_apart k (hsub hk) r hr
    simp only [Bool.and_eq_true, decide_eq_true_eq]
    omega
  exact ⟨hapart (List.subset_append_left _ _), hapart (List.subset_append_right _ _)⟩

theorem simpleLower_of_isBlank {c : CodePoint} (h : c.isBlank = true) : c.simpleLower = c := by
  obtain ⟨r, hr, hlow, hhigh⟩ := isBlank_iff.mp h
  rw [simpleLower]
  split
  · next first last step shift hfind =>
    have hrun := List.find?_some hfind
    have hapart := (lowerRuns_apart _ (List.mem_of_find?_eq_some hfind) r hr).1
    simp only [Bool.and_eq_true, decide_eq_true_eq] at hrun hapart
    omega
  · rfl

theorem isBlank_simpleLower {c : CodePoint} (h : c.isBlank = false) :
    c.simpleLower.isBlank = false := by
  rw [simpleLower]
  split
  · next first last step shift hfind =>
    have hrun := List.find?_some hfind
    have hmem := List.mem_of_find?_eq_some hfind
    have hwithin := lowerRuns_within _ hmem
    simp only [Bool.and_eq_true, decide_eq_true_eq] at hrun hwithin
    rw [← Bool.not_eq_true, isBlank_iff]
    rintro ⟨r, hr, hlow, hhigh⟩
    have hapart := (lowerRuns_apart _ hmem r hr).2
    rw [value_ofNat (by omega)] at hlow hhigh
    dsimp only at hapart
    omega
  · exact h

/-- Within ASCII only the letters have a lower case of their own. -/
theorem simpleLower_of_ascii {c : CodePoint} (h : c.value < 0x80) :
    c.simpleLower = c.asciiLower := by
  have hascii : ∀ n < 0x80, simpleLower (scalar (Char.ofNat n)) =
      asciiLower (scalar (Char.ofNat n)) := by decide +kernel
  cases c with
  | scalar c =>
    have hc := hascii c.toNat h
    rwa [Char.ofNat_toNat] at hc
  | surrogate half =>
    change 0xD800 + half.val < 0x80 at h
    omega

theorem value_lt_of_asciiLower {c : CodePoint} (h : c.asciiLower.value < 0x80) :
    c.value < 0x80 := by
  cases c with
  | scalar c =>
    change c.toLower.toNat < 0x80 at h
    change c.toNat < 0x80
    unfold Char.toLower at h
    split at h
    · next hcapital =>
      have hz : c.toNat ≤ 'Z'.toNat := hcapital.2
      exact Nat.lt_of_le_of_lt hz (by decide)
    · exact h
  | surrogate half => exact h

end CodePoint

/-! ### Texts -/

namespace Text

open CodePoint (isBlank)

variable {c : CodePoint} {s before : Text}

/-- Nothing behind a blank counts. -/
theorem startsCased_append (hc : c.isBlank = true) (s rest : Text) :
    startsCased (s ++ c :: rest) = startsCased s := by
  obtain ⟨hignorable, hcased⟩ := CodePoint.not_case_of_isBlank hc
  induction s with
  | nil =>
    rw [List.nil_append, startsCased, List.dropWhile_cons_of_neg (by simp [hignorable])]
    exact hcased
  | cons d s ih =>
    rw [startsCased, startsCased, List.cons_append]
    by_cases hd : d.isCaseIgnorable = true
    · rw [List.dropWhile_cons_of_pos hd, List.dropWhile_cons_of_pos hd]
      exact ih
    · rw [List.dropWhile_cons_of_neg hd, List.dropWhile_cons_of_neg hd]

theorem lowerFrom_blank (hc : c.isBlank = true) (before s : Text) :
    lowerFrom before (c :: s) = c :: lowerFrom (c :: before) s := by
  have hdotted : c ≠ .scalar '\u0130' := by
    rintro rfl
    exact absurd hc (by decide)
  have hsigma : c ≠ .scalar '\u03A3' := by
    rintro rfl
    exact absurd hc (by decide)
  rw [lowerFrom, if_neg hdotted, if_neg hsigma, CodePoint.simpleLower_of_isBlank hc]
  rfl

/-- A unit that is no blank becomes units that are none. -/
theorem lowerFrom_cons (hc : c.isBlank = false) (before s : Text) :
    ∃ block, block ≠ [] ∧ (∀ x ∈ block, x.isBlank = false) ∧
      lowerFrom before (c :: s) = block ++ lowerFrom (c :: before) s := by
  refine ⟨_, ?_, ?_, rfl⟩
  · split
    · exact List.cons_ne_nil _ _
    · split <;> exact List.cons_ne_nil _ _
  · split
    · decide
    · split
      · refine List.forall_mem_singleton.mpr ?_
        split <;> decide
      · exact List.forall_mem_singleton.mpr (CodePoint.isBlank_simpleLower hc)

/-- Nothing before a blank counts. -/
theorem lowerFrom_append_before (hc : c.isBlank = true) (before rest s : Text) :
    lowerFrom (before ++ c :: rest) s = lowerFrom before s := by
  induction s generalizing before with
  | nil => rfl
  | cons d s ih => rw [lowerFrom, lowerFrom, startsCased_append hc, ← ih (d :: before),
      List.cons_append]

theorem lower_blank (hc : c.isBlank = true) (s : Text) : lower (c :: s) = c :: lower s := by
  rw [lower, lowerFrom_blank hc]
  exact congrArg (c :: ·) (lowerFrom_append_before hc [] [] s)

theorem lowerFrom_concat_blank (hc : c.isBlank = true) (before s : Text) :
    lowerFrom before (s ++ [c]) = lowerFrom before s ++ [c] := by
  induction s generalizing before with
  | nil => rw [List.nil_append, lowerFrom_blank hc, lowerFrom, lowerFrom, List.nil_append]
  | cons d s ih =>
    rw [List.cons_append, lowerFrom, lowerFrom, startsCased_append hc, ih, List.append_assoc]

theorem lowerFrom_concat (hc : c.isBlank = false) (before s : Text) :
    ∃ t d, lowerFrom before (s ++ [c]) = t ++ [d] ∧ d.isBlank = false := by
  induction s generalizing before with
  | nil =>
    obtain ⟨block, hne, hblock, hlower⟩ := lowerFrom_cons hc before []
    refine ⟨block.dropLast, block.getLast hne, ?_, hblock _ (List.getLast_mem hne)⟩
    rw [List.nil_append, hlower, List.dropLast_concat_getLast, lowerFrom, List.append_nil]
  | cons d s ih =>
    obtain ⟨t, last, hlower, hlast⟩ := ih (d :: before)
    obtain ⟨block, hblock⟩ : ∃ block, lowerFrom before (d :: (s ++ [c])) =
        block ++ lowerFrom (d :: before) (s ++ [c]) := ⟨_, rfl⟩
    exact ⟨block ++ t, last, by rw [List.cons_append, hblock, hlower, List.append_assoc], hlast⟩

theorem trimRight_lower (s : Text) : trimRight isBlank s.lower = lower (trimRight isBlank s) := by
  induction s using List.reverseRecOn with
  | nil => rfl
  | append_singleton s c ih =>
    rw [trimRight_concat]
    cases hc : c.isBlank with
    | true =>
      rw [lower, lowerFrom_concat_blank hc, trimRight_concat, if_pos hc, if_pos rfl, ← ih, lower]
    | false =>
      obtain ⟨t, d, hlower, hd⟩ := lowerFrom_concat hc [] s
      rw [if_neg Bool.false_ne_true, lower, hlower, trimRight_concat, if_neg (by simp [hd])]

theorem dropWhile_lower (s : Text) : s.lower.dropWhile isBlank = lower (s.dropWhile isBlank) := by
  induction s with
  | nil => rfl
  | cons c s ih =>
    cases hc : c.isBlank with
    | true => rw [lower_blank hc, List.dropWhile_cons_of_pos hc, List.dropWhile_cons_of_pos hc, ih]
    | false =>
      obtain ⟨block, hne, hblock, hlower⟩ := lowerFrom_cons hc [] s
      obtain ⟨x, block, rfl⟩ := List.exists_cons_of_ne_nil hne
      have hx := hblock x List.mem_cons_self
      rw [List.dropWhile_cons_of_neg (by simp [hc]), lower, hlower, List.cons_append,
        List.dropWhile_cons_of_neg (by simp [hx])]

/-- Blanks may be cut off before or after a word is put in lower case. -/
theorem trimBlanks_lower (s : Text) : s.lower.trimBlanks = s.trimBlanks.lower := by
  rw [trimBlanks, trim, dropWhile_lower, trimRight_lower]
  rfl

/-- A word in ASCII has its lower case letter by letter. -/
theorem lower_of_ascii (h : ∀ c ∈ s, c.value < 0x80) : s.lower = s.asciiLower := by
  have hfrom (before : Text) : lowerFrom before s = s.asciiLower := by
    induction s generalizing before with
    | nil => rfl
    | cons c s ih =>
      obtain ⟨hc, hs⟩ := List.forall_mem_cons.mp h
      have hdotted : c ≠ .scalar '\u0130' := by
        rintro rfl
        exact absurd hc (by decide)
      have hsigma : c ≠ .scalar '\u03A3' := by
        rintro rfl
        exact absurd hc (by decide)
      rw [lowerFrom, if_neg hdotted, if_neg hsigma, CodePoint.simpleLower_of_ascii hc,
        ih hs (c :: before)]
      rfl
  exact hfrom []

end Text

end LintReport
