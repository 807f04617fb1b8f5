import Mathlib.Data.List.Nodup
import LintReport.Proofs.Report.Tally
import LintReport.Proofs.Text.Table

/-!
Rankings. While the issues are counted, the table of groups tells of every check that has come up
how many of its issues there were and which was the last, in the order in which the checks first
came up. Sorting by size keeps that order among groups of one size, and there is only one list of
groups that does all this.
-/
namespace LintReport.Ranking

variable {issues : List Issue} {table : Table (Nat × Issue)} {issue : Issue} {name name' : Text}

/-- The check of every issue. -/
def checks (issues : List Issue) : List Text := issues.map (·.checkName)

/-- The issues of one check. -/
def ofCheck (name : Text) (issues : List Issue) : List Issue :=
  issues.filter (·.checkName = name)

/-- The first check comes up before the other one does. -/
def Earlier (issues : List Issue) (name name' : Text) : Prop :=
  (checks issues).idxOf name < (checks issues).idxOf name'

/-- A group ranks before another if it is larger, or as large and its check came up earlier. -/
def Precedes (issues : List Issue) (e e' : Entry) : Prop :=
  e'.count < e.count ∨ e'.count = e.count ∧ Earlier issues e.checkName e'.checkName

/-- A ranking of some issues: one group a check, its size and its last issue, in their order. -/
structure IsRanking (issues : List Issue) (ranking : List Entry) : Prop where
  nodup : (ranking.map (·.checkName)).Nodup
  mem_iff : ∀ name, name ∈ ranking.map (·.checkName) ↔ name ∈ checks issues
  count : ∀ e ∈ ranking, e.count = (ofCheck e.checkName issues).length
  last : ∀ e ∈ ranking, (ofCheck e.checkName issues).getLast? = some e.last
  ordered : ranking.Pairwise (Precedes issues)

/-! ### Counting -/

theorem ofCheck_concat_self (issues : List Issue) (issue : Issue) :
    ofCheck issue.checkName (issues ++ [issue]) = ofCheck issue.checkName issues ++ [issue] := by
  simp [ofCheck]

theorem ofCheck_concat_of_ne (h : issue.checkName ≠ name) (issues : List Issue) :
    ofCheck name (issues ++ [issue]) = ofCheck name issues := by
  simp [ofCheck, h]

theorem ofCheck_eq_nil : ofCheck name issues = [] ↔ name ∉ checks issues := by
  simp [ofCheck, checks]

theorem checks_concat (issues : List Issue) (issue : Issue) :
    checks (issues ++ [issue]) = checks issues ++ [issue.checkName] := by
  simp [checks]

/-- What comes up later does not change which of two checks came up earlier. -/
theorem Earlier.concat (h : Earlier issues name name') (hname : name ∈ checks issues)
    (hname' : name' ∈ checks issues) (issue : Issue) :
    Earlier (issues ++ [issue]) name name' := by
  unfold Earlier at h ⊢
  rw [checks_concat, List.idxOf_append_of_mem hname, List.idxOf_append_of_mem hname']
  exact h

theorem earlier_concat_new (hname : name ∈ checks issues) (hnew : issue.checkName ∉ checks issues) :
    Earlier (issues ++ [issue]) name issue.checkName := by
  have hlt := List.idxOf_lt_length_iff.mpr hname
  unfold Earlier
  rw [checks_concat, List.idxOf_append_of_mem hname, List.idxOf_append_of_notMem hnew]
  omega

/-- The groups of the issues that have been counted: under the name of every check the number of
its issues and the last of them, and the names in the order in which they came up. -/
structure Counted (issues : List Issue) (table : Table (Nat × Issue)) : Prop where
  get? : ∀ name, Table.get? name table =
    (ofCheck name issues).getLast?.map fun last => ((ofCheck name issues).length, last)
  ordered : (table.map Prod.fst).Pairwise (Earlier issues)

theorem counted_nil : Counted [] [] where
  get? _ := rfl
  ordered := .nil

namespace Counted

theorem mem_names (h : Counted issues table) :
    name ∈ table.map Prod.fst ↔ name ∈ checks issues := by
  have hnone : name ∉ table.map Prod.fst ↔ name ∉ checks issues := by
    rw [← Table.isNone_get?, h.get?, Option.isNone_map, Option.isNone_iff_eq_none,
      List.getLast?_eq_none_iff, ofCheck_eq_nil]
  exact not_iff_not.mp hnone

theorem nodup (h : Counted issues table) : (table.map Prod.fst).Nodup := by
  apply h.ordered.imp
  intro name name' hlt heq
  subst heq
  exact Nat.lt_irrefl _ hlt

theorem size_eq (h : Counted issues table) (name : Text) :
    (Table.get? name table).elim 0 (·.1) = (ofCheck name issues).length := by
  rw [h.get?]
  cases hlast : (ofCheck name issues).getLast? with
  | none => rw [List.getLast?_eq_none_iff.mp hlast]; rfl
  | some last => rfl

/-- One more issue is counted in the group of its check, which is a new one at the end if the check
has not come up before. -/
theorem add (h : Counted issues table) (issue : Issue) :
    Counted (issues ++ [issue]) (add table issue) where
  get? name := by
    rw [Ranking.add, Table.get?_insert, h.size_eq]
    by_cases hname : issue.checkName = name
    · subst hname
      rw [if_pos rfl, ofCheck_concat_self, List.getLast?_concat, List.length_append]
      rfl
    · rw [if_neg hname, ofCheck_concat_of_ne hname, h.get?]
  ordered := by
    have hkept : (table.map Prod.fst).Pairwise (Earlier (issues ++ [issue])) := by
      apply h.ordered.imp_of_mem
      intro name name' hname hname' hearlier
      exact hearlier.concat (h.mem_names.mp hname) (h.mem_names.mp hname') issue
    rw [Ranking.add]
    by_cases hmem : issue.checkName ∈ table.map Prod.fst
    · rw [Table.names_insert_of_mem hmem]
      exact hkept
    · rw [Table.insert_of_not_mem hmem, List.map_append, List.pairwise_append]
      refine ⟨hkept, List.pairwise_singleton _ _, ?_⟩
      intro name hname last hlast
      rw [List.mem_singleton.mp hlast]
      exact earlier_concat_new (h.mem_names.mp hname) (mt h.mem_names.mpr hmem)

end Counted

/-- The invariant of the loop over the issues. -/
theorem Counted.foldl (h : Counted issues table) (later : List Issue) :
    Counted (issues ++ later) (later.foldl Ranking.add table) := by
  induction later generalizing issues table with
  | nil =>
    rw [List.append_nil]
    exact h
  | cons issue later ih =>
    have hnext := ih (h.add issue)
    rw [List.append_assoc] at hnext
    exact hnext

/-! ### Sorting -/

/-- Larger groups come first, and among groups of one size the order is the one from before. -/
theorem pairwise_sorted {R : Entry → Entry → Prop} {groups : List Entry} (h : groups.Pairwise R) :
    (groups.mergeSort fun a b => b.count ≤ a.count).Pairwise
      fun a b => b.count < a.count ∨ b.count = a.count ∧ R a b := by
  have htrans (a b c : Entry) (hab : decide (b.count ≤ a.count) = true)
      (hbc : decide (c.count ≤ b.count) = true) : decide (c.count ≤ a.count) = true := by
    simp only [decide_eq_true_eq] at hab hbc ⊢
    omega
  have htotal (a b : Entry) :
      (decide (b.count ≤ a.count) || decide (a.count ≤ b.count)) = true := by
    simp only [Bool.or_eq_true, decide_eq_true_eq]
    omega
  induction groups with
  | nil => simp
  | cons e groups ih =>
    obtain ⟨hfirst, hrest⟩ := List.pairwise_cons.mp h
    obtain ⟨larger, others, hsorted, hbefore, hlarger⟩ := List.mergeSort_cons htrans htotal e groups
    have hsizes := List.pairwise_mergeSort htrans htotal (e :: groups)
    have hkept := ih hrest
    rw [hsorted] at hsizes ⊢
    rw [hbefore] at hkept
    obtain ⟨hkeptLarger, hkeptOthers, hkeptBetween⟩ := List.pairwise_append.mp hkept
    rw [List.pairwise_append, List.pairwise_cons]
    refine ⟨hkeptLarger, ⟨?_, hkeptOthers⟩, ?_⟩
    · intro other hother
      have hle : other.count ≤ e.count := of_decide_eq_true
        ((List.pairwise_cons.mp (List.pairwise_append.mp hsizes).2.1).1 other hother)
      have hmem : other ∈ groups := by
        have hin : other ∈ groups.mergeSort fun a b => b.count ≤ a.count := by
          rw [hbefore]
          exact List.mem_append_right _ hother
        exact List.mem_mergeSort.mp hin
      rcases Nat.lt_or_eq_of_le hle with hlt | heq
      · exact Or.inl hlt
      · exact Or.inr ⟨heq, hfirst other hmem⟩
    · intro a ha b hb
      rcases List.mem_cons.mp hb with rfl | hb
      · have hnot := hlarger a ha
        simp only [Bool.not_eq_true', decide_eq_false_iff_not] at hnot
        exact Or.inl (by omega)
      · exact hkeptBetween a ha b hb

/-! ### Rankings -/

theorem isRanking_ofIssues (issues : List Issue) : IsRanking issues (ofIssues issues) := by
  have hcounted : Counted issues (issues.foldl add []) := counted_nil.foldl issues
  have hnames : (groups issues).map (·.checkName) = (issues.foldl add []).map Prod.fst := by
    rw [groups, List.map_map]
    rfl
  have hperm : (ofIssues issues).Perm (groups issues) := List.mergeSort_perm _ _
  have hentry : ∀ e ∈ ofIssues issues,
      (ofCheck e.checkName issues).getLast?.map
        (fun last => ((ofCheck e.checkName issues).length, last)) = some (e.count, e.last) := by
    intro e he
    obtain ⟨⟨name, count, last⟩, hmem, rfl⟩ := List.mem_map.mp (hperm.mem_iff.mp he)
    rw [← hcounted.get?]
    exact Table.get?_of_mem hcounted.nodup hmem
  constructor
  · rw [(hperm.map _).nodup_iff, hnames]
    exact hcounted.nodup
  · intro name
    rw [(hperm.map _).mem_iff, hnames]
    exact hcounted.mem_names
  · intro e he
    obtain ⟨last, -, heq⟩ := Option.map_eq_some_iff.mp (hentry e he)
    exact (Prod.mk.inj heq).1.symm
  · intro e he
    obtain ⟨last, hlast, heq⟩ := Option.map_eq_some_iff.mp (hentry e he)
    rw [hlast, (Prod.mk.inj heq).2]
  · apply pairwise_sorted
    have hordered := hcounted.ordered
    rw [← hnames, List.pairwise_map] at hordered
    exact hordered

namespace IsRanking

variable {ranking ranking' : List Entry}

theorem mem_of_mem (h : IsRanking issues ranking) (h' : IsRanking issues ranking') {e : Entry}
    (he : e ∈ ranking) : e ∈ ranking' := by
  have hname : e.checkName ∈ ranking'.map (·.checkName) := by
    rw [h'.mem_iff, ← h.mem_iff]
    exact List.mem_map_of_mem he
  obtain ⟨e', he', hsame⟩ := List.mem_map.mp hname
  have hcount : e'.count = e.count := by rw [h'.count e' he', h.count e he, hsame]
  have hlast : some e'.last = some e.last := by rw [← h'.last e' he', ← h.last e he, hsame]
  obtain ⟨name, count, last⟩ := e
  obtain ⟨name', count', last'⟩ := e'
  simp only [Option.some.injEq] at hsame hcount hlast
  subst hsame hcount hlast
  exact he'

/-- Some issues have one ranking only. -/
theorem unique (h : IsRanking issues ranking) (h' : IsRanking issues ranking') :
    ranking = ranking' := by
  have hperm : ranking.Perm ranking' := by
    rw [List.perm_ext_iff_of_nodup (List.Nodup.of_map _ h.nodup) (List.Nodup.of_map _ h'.nodup)]
    intro e
    exact ⟨h.mem_of_mem h', h'.mem_of_mem h⟩
  apply hperm.eq_of_pairwise _ h.ordered h'.ordered
  intro e e' _ _ hle hge
  unfold Precedes Earlier at hle hge
  omega

end IsRanking

/-- Every check that came up has one group, with the number of its issues and the last of them.
Larger groups come first, groups of one size in the order in which their checks came up, and the
sizes add up to the number of issues. -/
theorem eq_ofIssues_iff (issues : List Issue) (ranking : List Entry) :
    (ranking = ofIssues issues ↔ IsRanking issues ranking) ∧
      ((ofIssues issues).map (·.count)).sum = issues.length := by
  refine ⟨?_, sum_count issues⟩
  constructor
  · rintro rfl
    exact isRanking_ofIssues issues
  · intro h
    exact h.unique (isRanking_ofIssues issues)

end LintReport.Ranking
