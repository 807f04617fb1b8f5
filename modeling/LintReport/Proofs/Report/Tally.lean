import Mathlib.Algebra.Ring.Nat
import LintReport.Report.Summary
import LintReport.Proofs.Number.Whole
import LintReport.Proofs.Report.Lossless

/-!
Counts in a summary. The sizes of the groups add up to the number of issues, the last line of the
statistics tells that number and how many issues are critical, and a report has as many elements.
-/
namespace LintReport

/-! ### Groups -/

namespace Ranking

/-- The number of issues in some groups. -/
def total (groups : Table (Nat × Issue)) : Nat := (groups.map (·.2.1)).sum

theorem total_insert (name : Text) (issue : Issue) (groups : Table (Nat × Issue)) :
    total (Table.insert name ((Table.get? name groups).elim 0 (·.1) + 1, issue) groups) =
      total groups + 1 := by
  induction groups with
  | nil => rfl
  | cons entry groups ih =>
    by_cases hname : entry.1 = name
    · simp only [total, Table.insert, Table.get?, if_pos hname, Option.elim_some, List.map_cons,
        List.sum_cons]
      omega
    · simp only [total, Table.insert, Table.get?, if_neg hname, List.map_cons,
        List.sum_cons] at ih ⊢
      rw [ih, Nat.add_assoc]

theorem total_foldl_add (issues : List Issue) (groups : Table (Nat × Issue)) :
    total (issues.foldl add groups) = total groups + issues.length := by
  induction issues generalizing groups with
  | nil => rfl
  | cons issue issues ih =>
    rw [List.foldl_cons, ih, add, total_insert, List.length_cons, Nat.add_assoc, Nat.add_comm 1]

/-- The sizes of the ranked groups add up to the number of issues. -/
theorem sum_count (issues : List Issue) :
    ((ofIssues issues).map (·.count)).sum = issues.length := by
  have hperm := ((groups issues).mergeSort_perm fun a b => b.count ≤ a.count).map (·.count)
  rw [ofIssues, hperm.sum_nat, groups, List.map_map]
  have htotal := total_foldl_add issues []
  rw [total, total, List.map_nil, List.sum_nil, Nat.zero_add] at htotal
  exact htotal

end Ranking

/-! ### Statistics -/

namespace Summary

theorem isLine_totalLine (total critical : Nat) : Text.IsLine (totalLine total critical) := by
  have hword (s : String) (h : (s.toList.all fun c => 0x20 ≤ c.toNat && c.toNat < 0x80) = true) :
      Text.IsLine (Text.ofString s) := Text.isLine_ofString h
  exact ((((hword "Total issues: " (by decide)).append (Text.isLine_ofNat total)).append
    (hword " (" (by decide))).append (Text.isLine_ofNat critical)).append
    (hword " critical)" (by decide))

/-- The statistics end with the line that tells the totals. -/
theorem getLast?_statisticsOf (policy : LastPolicy) (ranking : List Ranking.Entry)
    (total critical : Nat) :
    (statisticsOf policy ranking total critical).lines.getLast? =
      some (totalLine total critical) := by
  rw [statisticsOf,
    Text.lines_joinLines_concat _ (isLine_totalLine total critical) (List.cons_ne_nil _ _),
    List.getLast?_concat]

/-! ### Exit codes -/

theorem code_exitReason (strict : Bool) (issues : List Issue) :
    (exitReason strict issues).code =
      if strict = true ∧ 0 < issues.length then 8
      else if strict = false ∧ 0 < countCritical issues then 7
      else 0 := by
  unfold exitReason
  cases strict with
  | true => cases issues <;> simp [ExitReason.code]
  | false =>
    by_cases h : countCritical issues = 0 <;> simp [h, ExitReason.code, Nat.pos_iff_ne_zero]

end Summary

/-! ### Elements -/

namespace Report

/-- Is an element of a report a critical issue? -/
def isCritical (v : Json) : Bool := (v.member "severity").text? = some (Text.ofString "critical")

theorem countP_isCritical (issues : List Issue) :
    (issues.map Issue.toJson).countP isCritical = Summary.countCritical issues := by
  rw [List.countP_map, Summary.countCritical]
  refine List.countP_congr fun issue _ => ?_
  have hname (severity : Severity) :
      some severity.name = some (Text.ofString "critical") ↔ severity = .critical := by
    cases severity <;> decide
  change decide (some issue.severity.name = some (Text.ofString "critical")) = true ↔
    decide (issue.severity = .critical) = true
  rw [decide_eq_true_eq, decide_eq_true_eq, hname]

end Report

end LintReport
