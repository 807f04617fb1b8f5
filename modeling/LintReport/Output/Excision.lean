import LintReport.Text.Basic

/-!
Excision of echoed sources. A linter may copy a source file that it cannot parse into its document,
whatever the file holds, and thereby spoil the document. The copy stands between two fixed marks,
and everything from the first mark to the next second mark is cut out.
-/
namespace LintReport.Output

def sourceOpening : Text := ",\"source\":\""

def sourceClosing : Text := "\",\"usedDeprecatedRules\":"

/-- What is left of an echoed source and its marks. -/
def sourceTrace : Text := ",\"usedDeprecatedRules\":"

theorem length_lt_of_cut? {mark s before rest : Text} (hm : mark ≠ [])
    (h : Text.cut? mark s = some (before, rest)) : rest.length < s.length := by
  have := congrArg List.length (Text.eq_of_cut?_eq_some h)
  have := List.length_pos_iff.mpr hm
  simp only [List.length_append] at *
  omega

def withoutSources (s : Text) : Text :=
  match _first : Text.cut? sourceOpening s with
  | none => s
  | some (before, inside) =>
    match _second : Text.cut? sourceClosing inside with
    | none => s
    | some (_, rest) => before ++ sourceTrace ++ withoutSources rest
termination_by s.length
decreasing_by
  exact Nat.lt_trans (length_lt_of_cut? (by decide) _second) (length_lt_of_cut? (by decide) _first)

end LintReport.Output
