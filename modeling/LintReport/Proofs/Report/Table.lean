import LintReport.Proofs.Report.Tally

/-!
The table of the statistics, line by line. Below two lines of headings every group has a row, and
under it the place of its last issue if the policy asks for it; the totals come last. The rows are
joined to a text that is split into lines again, and so a row is torn at every end of a line that
the name of its check or the path of its last issue holds. Other rows are lines as they are.
-/
namespace LintReport

namespace Summary

open Text (IsLine isLine_append isLine_cons isLine_ofInt isLine_ofNat lines)

/-! ### Rows -/

/-- Does a policy ask for the last issue of a group? -/
def Annotates (policy : LastPolicy) (e : Ranking.Entry) : Prop :=
  policy = .always ∨ policy = .single ∧ e.count = 1

instance (policy : LastPolicy) (e : Ranking.Entry) : Decidable (Annotates policy e) :=
  inferInstanceAs (Decidable (policy = .always ∨ policy = .single ∧ e.count = 1))

/-- The row of a group: its rank, the number of its issues and the name of their check. -/
def row (rank : Nat) (e : Ranking.Entry) : Text :=
  "\t#" ++ Text.ofNat rank ++ .scalar '\t' :: Text.ofNat e.count ++ .scalar '\t' :: e.checkName

/-- The line for the place of the last issue of a group. -/
def lastLine (issue : Issue) : Text := "\t\t\tLast: " ++ place issue

/-- The rows of some groups, the first of which has the given rank. -/
inductive Rows (policy : LastPolicy) : Nat → List Ranking.Entry → List Text → Prop
  | nil (rank : Nat) : Rows policy rank [] []
  | bare {rank : Nat} {e : Ranking.Entry} {ranking : List Ranking.Entry} {rows : List Text}
      (h : ¬ Annotates policy e) (hrest : Rows policy (rank + 1) ranking rows) :
      Rows policy rank (e :: ranking) (row rank e :: rows)
  | annotated {rank : Nat} {e : Ranking.Entry} {ranking : List Ranking.Entry} {rows : List Text}
      (h : Annotates policy e) (hrest : Rows policy (rank + 1) ranking rows) :
      Rows policy rank (e :: ranking) (row rank e :: lastLine e.last :: rows)

/-- The lines of the table for some issues, if nothing in them breaks a line. -/
inductive IsTable (policy : LastPolicy) (issues : List Issue) : List Text → Prop
  | empty (h : issues = []) : IsTable policy issues [totalLine 0 0]
  | ranked {rows : List Text} (h : issues ≠ [])
      (hrows : Rows policy 1 (Ranking.ofIssues issues) rows) :
      IsTable policy issues ("Issue types by count:" :: "\tRNK\tCNT\tTYPE\t" ::
        (rows ++ [totalLine issues.length (countCritical issues)]))

/-- The number of lines in a table: two headings, a row for each group, a line for each last issue
that the policy asks for, and the totals. Without issues the totals stand alone. -/
def tableSize (policy : LastPolicy) (issues : List Issue) : Nat :=
  let ranking := Ranking.ofIssues issues
  if issues = [] then 1 else 2 + ranking.length + ranking.countP (Annotates policy ·) + 1

/-- Neither the name of a check nor a path that is shown ends a line. -/
def Unbroken (policy : LastPolicy) (ranking : List Ranking.Entry) : Prop :=
  ∀ e ∈ ranking, IsLine e.checkName ∧ (Annotates policy e → IsLine e.last.location.fullPath)

instance (policy : LastPolicy) (ranking : List Ranking.Entry) :
    Decidable (Unbroken policy ranking) :=
  inferInstanceAs (Decidable (∀ e ∈ ranking,
    IsLine e.checkName ∧ (Annotates policy e → IsLine e.last.location.fullPath)))

theorem showsLast_eq (policy : LastPolicy) (e : Ranking.Entry) :
    showsLast policy e = decide (Annotates policy e) := by
  cases policy <;> simp [showsLast, Annotates]

variable {policy : LastPolicy} {issues : List Issue} {ranking : List Ranking.Entry}
  {rows table : List Text} {rank : Nat}

theorem rows_rankLines (policy : LastPolicy) (rank : Nat) (ranking : List Ranking.Entry) :
    Rows policy rank ranking
      ((ranking.zipIdx rank).flatMap fun (e, rank) => rankLines policy rank e) := by
  induction ranking generalizing rank with
  | nil => exact .nil rank
  | cons e ranking ih =>
    rw [List.zipIdx_cons, List.flatMap_cons]
    have hlines : rankLines policy rank e =
        row rank e :: if Annotates policy e then [lastLine e.last] else [] := by
      rw [rankLines, showsLast_eq]
      simp only [decide_eq_true_eq]
      rfl
    dsimp only
    rw [hlines]
    by_cases h : Annotates policy e
    · rw [if_pos h]
      exact .annotated h (ih (rank + 1))
    · rw [if_neg h]
      exact .bare h (ih (rank + 1))

theorem Rows.length_eq (h : Rows policy rank ranking rows) :
    rows.length = ranking.length + ranking.countP (Annotates policy ·) := by
  induction h with
  | nil => rfl
  | bare h _ ih =>
    rw [List.length_cons, List.length_cons, List.countP_cons_of_neg (by simpa), ih]
    omega
  | annotated h _ ih =>
    rw [List.length_cons, List.length_cons, List.length_cons,
      List.countP_cons_of_pos (by simpa), ih]
    omega

/-! ### Lines -/

theorem isLine_row {e : Ranking.Entry} : IsLine (row rank e) ↔ IsLine e.checkName := by
  have hopening : IsLine (Text.ofString "\t#") := by decide
  have hnumbers : IsLine ("\t#" ++ Text.ofNat rank ++ .scalar '\t' :: Text.ofNat e.count) :=
    (hopening.append (isLine_ofNat rank)).append ((isLine_ofNat e.count).cons (by decide))
  have htab : (CodePoint.scalar '\t').endsLine = false := by decide
  rw [row, isLine_append, and_iff_right hnumbers, isLine_cons, and_iff_right htab]

theorem isLine_lastLine {issue : Issue} :
    IsLine (lastLine issue) ↔ IsLine issue.location.fullPath := by
  let p := issue.location.position
  let numbers := Text.ofInt p.line :: p.column.toList.map Text.ofInt
  have hnumbers : IsLine (Text.join [.scalar ':'] numbers) := by
    intro c hc
    rcases Text.mem_of_mem_join hc with hc | ⟨part, hpart, hc⟩
    · rw [List.mem_singleton.mp hc]
      decide
    · rcases List.mem_cons.mp hpart with rfl | hpart
      · exact isLine_ofInt _ c hc
      · obtain ⟨n, -, rfl⟩ := List.mem_map.mp hpart
        exact isLine_ofInt n c hc
  have hplace : lastLine issue = Text.ofString "\t\t\tLast: " ++
      (issue.location.fullPath ++ [.scalar ':'] ++ Text.join [.scalar ':'] numbers) := rfl
  have hopening : IsLine (Text.ofString "\t\t\tLast: ") := by decide
  have hcolon : IsLine [.scalar ':'] := by decide
  rw [hplace, isLine_append, isLine_append, isLine_append]
  exact ⟨fun h => h.2.1.1, fun h => ⟨hopening, ⟨h, hcolon⟩, hnumbers⟩⟩

theorem Rows.forall_isLine_iff (h : Rows policy rank ranking rows) :
    (∀ l ∈ rows, IsLine l) ↔ Unbroken policy ranking := by
  unfold Unbroken
  induction h with
  | nil => simp
  | bare h _ ih => rw [List.forall_mem_cons, List.forall_mem_cons, isLine_row, ih]; simp [h]
  | annotated h _ ih =>
    rw [List.forall_mem_cons, List.forall_mem_cons, List.forall_mem_cons, isLine_row,
      isLine_lastLine, ih]
    simp [h, and_assoc]

/-! ### Tables -/

theorem ofIssues_eq_nil : Ranking.ofIssues issues = [] ↔ issues = [] := by
  constructor
  · intro h
    have hsum := Ranking.sum_count issues
    rw [h] at hsum
    exact List.length_eq_zero_iff.mp hsum.symm
  · rintro rfl
    exact List.mergeSort_nil

/-- The lines that are joined to the text of the statistics are the table. -/
theorem isTable_rankingLines (policy : LastPolicy) (issues : List Issue) :
    IsTable policy issues (rankingLines policy (Ranking.ofIssues issues) ++
      [totalLine issues.length (countCritical issues)]) := by
  unfold rankingLines
  by_cases h : issues = []
  · subst h
    rw [if_pos (ofIssues_eq_nil.mpr rfl)]
    exact .empty rfl
  · rw [if_neg (mt ofIssues_eq_nil.mp h)]
    exact .ranked h (rows_rankLines policy 1 (Ranking.ofIssues issues))

theorem IsTable.length_eq (h : IsTable policy issues table) :
    table.length = tableSize policy issues := by
  cases h with
  | empty h => rw [tableSize, if_pos h]; rfl
  | ranked h hrows =>
    rw [tableSize, if_neg h, List.length_cons, List.length_cons, List.length_append,
      hrows.length_eq, List.length_singleton]
    omega

theorem IsTable.forall_isLine_iff (h : IsTable policy issues table) :
    (∀ l ∈ table, IsLine l) ↔ Unbroken policy (Ranking.ofIssues issues) := by
  cases h with
  | empty h =>
    rw [ofIssues_eq_nil.mpr h]
    exact iff_of_true (List.forall_mem_singleton.mpr (isLine_totalLine 0 0))
      fun e he => absurd he List.not_mem_nil
  | ranked h hrows =>
    have htotal := isLine_totalLine issues.length (countCritical issues)
    have hheadings : IsLine (Text.ofString "Issue types by count:") ∧
        IsLine (Text.ofString "\tRNK\tCNT\tTYPE\t") := by decide
    rw [List.forall_mem_cons, List.forall_mem_cons, List.forall_mem_append,
      List.forall_mem_singleton, hrows.forall_isLine_iff]
    exact ⟨fun h => h.2.2.1, fun h => ⟨hheadings.1, hheadings.2, h, htotal⟩⟩

/-- What is logged of the statistics of some issues. -/
structure Tabulates (policy : LastPolicy) (issues : List Issue) (logged : List Text) : Prop where
  torn : ∃ table, IsTable policy issues table ∧
    logged = table.flatMap fun l => lines (l ++ [.scalar '\n'])
  isTable_iff : IsTable policy issues logged ↔ Unbroken policy (Ranking.ofIssues issues)
  length : IsTable policy issues logged → logged.length = tableSize policy issues

/-- Every line of the table is torn by itself, so the table is there line by line if and only if
nothing in it breaks a line. -/
theorem tabulates_statisticsOf (policy : LastPolicy) (issues : List Issue) :
    Tabulates policy issues (statisticsOf policy (Ranking.ofIssues issues) issues.length
      (countCritical issues)).lines := by
  have htable := isTable_rankingLines policy issues
  have htotal := isLine_totalLine issues.length (countCritical issues)
  have htorn : (statisticsOf policy (Ranking.ofIssues issues) issues.length
      (countCritical issues)).lines =
      (rankingLines policy (Ranking.ofIssues issues) ++
        [totalLine issues.length (countCritical issues)]).flatMap
          fun l => lines (l ++ [.scalar '\n']) := by
    rw [statisticsOf, Text.lines_joinLines_concat _ htotal (List.cons_ne_nil _ _),
      List.flatMap_append, List.flatMap_singleton,
      Text.lines_append_feed_eq_singleton.mpr htotal]
  refine ⟨⟨_, htable, htorn⟩, ⟨fun h => ?_, fun hunbroken => ?_⟩, IsTable.length_eq⟩
  · exact h.forall_isLine_iff.mp (Text.isLine_of_mem_lines _)
  · have hlines := htable.forall_isLine_iff.mpr hunbroken
    rw [htorn, List.flatMap_congr fun l hl =>
      Text.lines_append_feed_eq_singleton.mpr (hlines l hl), List.flatMap_singleton']
    exact htable

end Summary

end LintReport
