import LintReport.Output.Excision
import LintReport.Proofs.Json.Braced

/-!
Excisions that cut out members. The marks of an echoed source are looked for in the text, whatever
stands there. But where the text between two marks consists of members, it is members that are cut
out.
-/
namespace LintReport.Output

open Json (Cuttable Excised Place rulesKey)

/-- The texts that are cut out, each without the marks around it. -/
def excisedTexts (s : Text) : List Text :=
  match _first : Text.cut? sourceOpening s with
  | none => []
  | some (_, inside) =>
    match _second : Text.cut? sourceClosing inside with
    | none => []
    | some (raw, rest) => raw :: excisedTexts rest
termination_by s.length
decreasing_by
  exact Nat.lt_trans (length_lt_of_cut? (by decide) _second) (length_lt_of_cut? (by decide) _first)

theorem excisedTexts_eq {s before inside raw rest : Text}
    (hfirst : Text.cut? sourceOpening s = some (before, inside))
    (hsecond : Text.cut? sourceClosing inside = some (raw, rest)) :
    excisedTexts s = raw :: excisedTexts rest := by
  rw [excisedTexts]
  split
  · next hnone => cases hnone.symm.trans hfirst
  · next hsome =>
    cases hsome.symm.trans hfirst
    split
    · next hnone => cases hnone.symm.trans hsecond
    · next hsome =>
      cases hsome.symm.trans hsecond
      rfl

/-- What is left of a cut goes on with what is left of the text behind it. -/
theorem excised_rules {kept : List Text} {s t : Text}
    (h : ∀ i, i.isCut = false → Excised kept i s t) :
    Excised kept .cut (.scalar '"' :: (rulesKey ++ s)) (.scalar '"' :: (rulesKey ++ t)) :=
  .rules (Excised.append (Json.rulesName ++ [.scalar '"']) rfl (h (Place.behind (.scalar ':')) rfl))

/-- Nothing but members is cut out if all that is cut out consists of members. -/
theorem excised_withoutSources {kept : List Text} {s : Text}
    (h : ∀ raw ∈ excisedTexts s, Cuttable kept raw) :
    ∀ i, i.isCut = false → Excised kept i s (withoutSources s) := by
  fun_induction withoutSources s with
  | case1 s hnone => exact fun i hi => Json.excised_refl s hi
  | case2 s before inside hfirst hnone => exact fun i hi => Json.excised_refl s hi
  | case3 s before inside hfirst raw rest hsecond ih =>
    intro i hi
    have hs : s = before ++ sourceOpening ++ (raw ++ sourceClosing ++ rest) := by
      rw [Text.eq_of_cut?_eq_some hfirst, Text.eq_of_cut?_eq_some hsecond]
    rw [excisedTexts_eq hfirst hsecond, List.forall_mem_cons] at h
    have hcut := h.1.excised (excised_rules (ih h.2))
    rw [hs, List.append_assoc, List.append_assoc, List.append_assoc]
    exact Excised.append (c := .scalar ',') before hi hcut

end LintReport.Output
