import Mathlib.Data.List.DropRight
import Mathlib.Data.List.Induction
import Mathlib.Data.List.TakeWhile
import LintReport.Text.Basic

/-!
Texts without some units at their ends. What is cut off from an end consists of these units only,
and the unit that stands there then is none of them.
-/
namespace LintReport.Text

variable {drop : CodePoint → Bool}

theorem trimRight_prefix (drop : CodePoint → Bool) (s : Text) : trimRight drop s <+: s :=
  List.rdropWhile_prefix drop s

theorem trimRight_concat (s : Text) (c : CodePoint) :
    trimRight drop (s ++ [c]) = if drop c then trimRight drop s else s ++ [c] := by
  rw [trimRight, List.reverse_concat]
  split
  · next hc => rw [List.dropWhile_cons_of_pos hc, trimRight]
  · next hc => rw [List.dropWhile_cons_of_neg hc, List.reverse_cons, List.reverse_reverse]

/-- Nothing is cut off from an end that is to stay. -/
theorem trimRight_append {stop : Text} (hne : stop ≠ []) (h : ∀ c ∈ stop, drop c = false)
    (s : Text) : trimRight drop (s ++ stop) = s ++ stop := by
  obtain ⟨init, last, rfl⟩ := (List.eq_nil_or_concat' stop).resolve_left hne
  have hlast : drop last = false := h last (by simp)
  rw [← List.append_assoc, trimRight_concat, if_neg (by simp [hlast])]

/-- What is cut off from the end is nothing but units that are to go. -/
theorem exists_eq_trimRight_append (drop : CodePoint → Bool) (s : Text) :
    ∃ stop, s = trimRight drop s ++ stop ∧ ∀ c ∈ stop, drop c = true := by
  refine ⟨(s.reverse.takeWhile drop).reverse, ?_, fun c hc => ?_⟩
  · rw [trimRight, ← List.reverse_append, List.takeWhile_append_dropWhile, List.reverse_reverse]
  · exact List.mem_takeWhile_imp (List.mem_reverse.mp hc)

/-- No unit at the end is left that was to go. -/
theorem of_getLast?_trimRight {s : Text} {c : CodePoint}
    (h : (trimRight drop s).getLast? = some c) : drop c = false := by
  have hhead := List.head?_dropWhile_not drop s.reverse
  rw [trimRight, List.getLast?_reverse] at h
  rwa [h] at hhead

theorem mem_dropWhile {s : Text} {c : CodePoint} (hc : c ∈ s) (hdrop : drop c = false) :
    c ∈ s.dropWhile drop := by
  rw [← List.takeWhile_append_dropWhile (p := drop) (l := s), List.mem_append] at hc
  refine hc.resolve_left fun htake => ?_
  have := List.mem_takeWhile_imp htake
  rw [hdrop] at this
  cases this

/-- A unit that is to stay is still there. -/
theorem mem_trim {s : Text} {c : CodePoint} (hc : c ∈ s) (hdrop : drop c = false) :
    c ∈ trim drop s :=
  List.mem_reverse.mpr (mem_dropWhile (List.mem_reverse.mpr (mem_dropWhile hc hdrop)) hdrop)

/-- Nothing is cut off from a text whose two ends are to stay. -/
theorem trim_eq_self {s : Text} (hhead : ∀ c ∈ s.head?, drop c = false)
    (hlast : ∀ c ∈ s.getLast?, drop c = false) : trim drop s = s := by
  have hstart : s.dropWhile drop = s := by
    cases s with
    | nil => rfl
    | cons c s => exact List.dropWhile_cons_of_neg (by simp [hhead c rfl])
  rw [trim, hstart]
  rcases List.eq_nil_or_concat' s with rfl | ⟨init, last, rfl⟩
  · rfl
  · refine trimRight_append (List.cons_ne_nil _ _) (fun c hc => ?_) init
    rw [List.mem_singleton.mp hc]
    exact hlast last List.getLast?_concat

theorem trimRight_append_of_pos {after : Text} (h : ∀ c ∈ after, drop c = true) (s : Text) :
    trimRight drop (s ++ after) = trimRight drop s := by
  have hreverse : ∀ c ∈ after.reverse, drop c = true := fun c hc => h c (List.mem_reverse.mp hc)
  rw [trimRight, List.reverse_append, List.dropWhile_append_of_pos hreverse, trimRight]

/-- What stands before a unit that is to stay is not cut off, and neither is the unit. -/
theorem exists_trimRight_append {s : Text} (h : ∀ c ∈ s.getLast?, drop c = false) (rest : Text) :
    ∃ kept, trimRight drop (s ++ rest) = s ++ kept := by
  induction rest using List.reverseRecOn with
  | nil =>
    refine ⟨[], ?_⟩
    rcases List.eq_nil_or_concat' s with rfl | ⟨init, last, rfl⟩
    · rfl
    · rw [List.append_nil, trimRight_concat, if_neg (by simp [h last List.getLast?_concat])]
  | append_singleton rest c ih =>
    rw [← List.append_assoc, trimRight_concat]
    split
    · exact ih
    · exact ⟨rest ++ [c], List.append_assoc ..⟩

/-- It makes no difference how much is cut off at either end. -/
theorem trim_append {before after : Text} (hbefore : ∀ c ∈ before, drop c = true)
    (hafter : ∀ c ∈ after, drop c = true) (s : Text) :
    trim drop (before ++ s ++ after) = trim drop s := by
  rw [List.append_assoc, trim, List.dropWhile_append_of_pos hbefore, List.dropWhile_append, trim]
  split
  · next hempty =>
    have hrest : after.dropWhile drop = [] := List.dropWhile_eq_nil_iff.mpr hafter
    rw [hrest, List.isEmpty_iff.mp hempty]
  · exact trimRight_append_of_pos hafter _

end LintReport.Text
