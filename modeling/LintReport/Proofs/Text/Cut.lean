import Mathlib.Data.List.Infix
import LintReport.Text.Basic

/-!
Cuts at marks. A mark that does not overlap itself is found where it was put, whatever stands behind
it, if it is not found in the text before it. A mark whose first unit does not come up in it again
begins nowhere else than at such a unit.
-/
namespace LintReport.Text

variable {mark before rest s : Text}

/-- No end of the mark is a start of it, but for the mark as a whole. -/
def Unbordered (mark : Text) : Prop := ∀ n < mark.length, 0 < n → ¬ mark.drop n <+: mark

instance (mark : Text) : Decidable (Unbordered mark) :=
  inferInstanceAs (Decidable (∀ n < mark.length, 0 < n → ¬ mark.drop n <+: mark))

theorem after?_eq_none : after? mark s = none ↔ ¬ mark <+: s := by
  rw [Option.eq_none_iff_forall_ne_some]
  constructor
  · rintro h ⟨rest, rfl⟩
    exact h rest (after?_eq_some.mpr rfl)
  · intro h rest hrest
    exact h ⟨rest, (after?_eq_some.mp hrest).symm⟩

theorem beginsWith_iff : beginsWith mark s = true ↔ mark <+: s := by
  rw [beginsWith, Option.isSome_iff_ne_none, Ne, after?_eq_none, not_not]

theorem cut?_eq_none : cut? mark s = none ↔ ¬ mark <:+: s := by
  induction s with
  | nil =>
    by_cases hmark : mark = []
    · simp [cut?, hmark]
    · simp [cut?, hmark]
  | cons c s ih =>
    rw [cut?, List.infix_cons_iff, not_or, ← after?_eq_none, ← ih]
    cases after? mark (c :: s) with
    | none => simp
    | some rest => simp

/-- A mark does not begin in the text before it and end behind that text. -/
theorem not_prefix_append (hmark : Unbordered mark) (hbefore : before ≠ [])
    (h : ¬ mark <+: before) : ¬ mark <+: before ++ mark ++ rest := by
  intro hprefix
  rw [List.append_assoc] at hprefix
  by_cases hlength : mark.length ≤ before.length
  · exact h (List.prefix_of_prefix_length_le hprefix (List.prefix_append _ _) hlength)
  · obtain ⟨tail, htail⟩ : before <+: mark :=
      List.prefix_of_prefix_length_le (List.prefix_append _ _) hprefix (by omega)
    have hdrop : mark.drop before.length = tail := by rw [← htail, List.drop_left]
    have hstart : tail <+: mark ++ rest := by
      rw [← List.prefix_append_right_inj before, htail]
      exact hprefix
    have hborder : tail <+: mark := by
      apply List.prefix_of_prefix_length_le hstart (List.prefix_append _ _)
      rw [← hdrop, List.length_drop]
      omega
    have hpos : 0 < before.length := List.length_pos_iff.mpr hbefore
    exact hmark before.length (by omega) hpos (hdrop ▸ hborder)

/-- The first occurrence is the one that was put behind a text without the mark. -/
theorem cut?_append (hmark : Unbordered mark) (h : ¬ mark <:+: before) (rest : Text) :
    cut? mark (before ++ mark ++ rest) = some (before, rest) := by
  induction before with
  | nil =>
    have hne : mark ≠ [] := by
      rintro rfl
      exact h List.nil_infix
    obtain ⟨m, tail, rfl⟩ := List.exists_cons_of_ne_nil hne
    have hafter : after? (m :: tail) (m :: (tail ++ rest)) = some rest := after?_eq_some.mpr rfl
    rw [List.nil_append, List.cons_append, cut?, hafter]
  | cons c before ih =>
    rw [List.infix_cons_iff, not_or] at h
    have hafter : after? mark (c :: (before ++ mark ++ rest)) = none :=
      after?_eq_none.mpr (not_prefix_append hmark (List.cons_ne_nil c before) h.1)
    rw [List.cons_append, List.cons_append, cut?, hafter, ih h.2]
    rfl

/-- The mark stands nowhere in the text before the first cut. -/
theorem not_infix_of_cut? (hmark : mark ≠ []) (h : cut? mark s = some (before, rest)) :
    ¬ mark <:+: before := by
  induction s generalizing before with
  | nil =>
    rw [cut?, if_neg hmark] at h
    cases h
  | cons c s ih =>
    rw [cut?] at h
    split at h
    · next hafter =>
      cases h
      exact mt List.infix_nil.mp hmark
    · next hafter =>
      obtain ⟨⟨first, tail⟩, hcut, heq⟩ := Option.map_eq_some_iff.mp h
      cases heq
      have hfirst : c :: first <+: c :: s := by
        rw [eq_of_cut?_eq_some hcut, List.append_assoc]
        exact List.prefix_append (c :: first) _
      rw [List.infix_cons_iff, not_or]
      exact ⟨fun hbegins => after?_eq_none.mp hafter (hbegins.trans hfirst), ih hcut⟩

/-! ### Marks that begin with a unit of their own -/

section Opening

variable {c : CodePoint} {tail part s' : Text}

/-- A text without the first unit of the mark is passed over. -/
theorem infix_of_infix_append (hpart : c ∉ part) (h : c :: tail <:+: part ++ s) :
    c :: tail <:+: s := by
  induction part with
  | nil => exact h
  | cons x part ih =>
    obtain ⟨hx, hpart⟩ := not_or.mp (mt List.mem_cons.mpr hpart)
    refine ih hpart ((List.infix_cons_iff.mp h).resolve_left fun hprefix => ?_)
    exact hx (List.cons_prefix_cons.mp hprefix).1

theorem prefix_of_prefix_append (htail : c ∉ tail) (h : tail <+: part ++ c :: s) :
    tail <+: part := by
  induction part generalizing tail with
  | nil =>
    cases tail with
    | nil => exact List.prefix_rfl
    | cons x tail => exact absurd ((List.cons_prefix_cons.mp h).1 ▸ List.mem_cons_self) htail
  | cons x part ih =>
    cases tail with
    | nil => exact List.nil_prefix
    | cons y tail =>
      obtain ⟨hy, h⟩ := List.cons_prefix_cons.mp h
      exact List.cons_prefix_cons.mpr ⟨hy, ih (mt (List.mem_cons_of_mem y) htail) h⟩

/-- A mark that is not in the text before its first unit begins at that unit or behind it. -/
theorem infix_of_infix_append_cons (htail : c ∉ tail) (hbefore : ¬ c :: tail <:+: before)
    (h : c :: tail ++ s' <:+: before ++ c :: s) : c :: tail ++ s' <:+: c :: s := by
  induction before with
  | nil => exact h
  | cons x before ih =>
    obtain ⟨hfirst, hbefore⟩ := not_or.mp (mt List.infix_cons_iff.mpr hbefore)
    refine ih hbefore ((List.infix_cons_iff.mp h).resolve_left fun hprefix => hfirst ?_)
    obtain ⟨hx, hprefix⟩ := List.cons_prefix_cons.mp hprefix
    exact List.cons_prefix_cons.mpr
      ⟨hx, prefix_of_prefix_append htail ((List.prefix_append tail s').trans hprefix)⟩

end Opening

end LintReport.Text
