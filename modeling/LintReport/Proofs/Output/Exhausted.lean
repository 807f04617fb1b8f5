import LintReport.Proofs.Output.Echoed

/-!
Excisions leave nothing to cut out. The trace that is left of a source holds no mark, and neither an
end of the text before it nor a start of the text behind it completes one, so one pass over a text
is enough.
-/
namespace LintReport.Output

/-- A text in which a source stands between its marks. -/
def HoldsSource (s : Text) : Prop := ∃ source, sourceOpening ++ source ++ sourceClosing <:+: s

variable {before inside part rest s : Text}

/-! ### Where a source stands -/

theorem sourceOpening_eq : ∃ name : Text, sourceOpening = .scalar ',' :: name ∧ .scalar ',' ∉ name :=
  ⟨"\"source\":\"", rfl, by decide⟩

theorem sourceTrace_eq : ∃ name : Text, sourceTrace = .scalar ',' :: name ∧ .scalar ',' ∉ name :=
  ⟨"\"usedDeprecatedRules\":", rfl, by decide⟩

theorem not_prefix_sourceTrace (s rest : Text) : ¬ sourceOpening ++ s <+: sourceTrace ++ rest := by
  rintro ⟨tail, htail⟩
  simp [sourceOpening, sourceTrace, Text.ofString] at htail

/-- A source behind a comma stands at that comma or behind the text that has no further one. -/
theorem HoldsSource.of_append (h : HoldsSource (before ++ .scalar ',' :: (part ++ s)))
    (hbefore : ¬ sourceOpening <:+: before) (hpart : .scalar ',' ∉ part) :
    (∃ source, sourceOpening ++ source ++ sourceClosing <+: .scalar ',' :: (part ++ s)) ∨
      HoldsSource s := by
  obtain ⟨name, hopening, hname⟩ := sourceOpening_eq
  obtain ⟨source, hsource⟩ := h
  rw [hopening] at hbefore
  rw [hopening, List.append_assoc] at hsource
  rcases List.infix_cons_iff.mp (Text.infix_of_infix_append_cons hname hbefore hsource) with
    hhere | hbehind
  · rw [← List.append_assoc, ← hopening] at hhere
    exact Or.inl ⟨source, hhere⟩
  · have hrest : .scalar ',' :: (name ++ (source ++ sourceClosing)) <:+: s :=
      Text.infix_of_infix_append hpart hbehind
    rw [← List.cons_append, ← hopening, ← List.append_assoc] at hrest
    exact Or.inr ⟨source, hrest⟩

theorem HoldsSource.closing (h : HoldsSource s) : sourceClosing <:+: s := by
  obtain ⟨source, hsource⟩ := h
  exact (List.suffix_append _ _).isInfix.trans hsource

/-- Without the second mark behind the first one there is no source. -/
theorem not_holdsSource_of_not_infix (hbefore : ¬ sourceOpening <:+: before)
    (hinside : ¬ sourceClosing <:+: inside) : ¬ HoldsSource (before ++ sourceOpening ++ inside) := by
  intro h
  obtain ⟨name, hopening, hname⟩ := sourceOpening_eq
  rw [hopening, List.append_assoc, List.cons_append] at h
  rcases h.of_append hbefore hname with ⟨source, hhere⟩ | hbehind
  · rw [← List.cons_append, ← hopening, List.append_assoc, List.prefix_append_right_inj] at hhere
    exact hinside ((List.suffix_append _ _).isInfix.trans hhere.isInfix)
  · exact hinside hbehind.closing

/-- What is left of a source makes no source of the texts around it. -/
theorem not_holdsSource_sourceTrace (hbefore : ¬ sourceOpening <:+: before)
    (hrest : ¬ HoldsSource rest) : ¬ HoldsSource (before ++ sourceTrace ++ rest) := by
  intro h
  obtain ⟨name, htrace, hname⟩ := sourceTrace_eq
  rw [htrace, List.append_assoc, List.cons_append] at h
  rcases h.of_append hbefore hname with ⟨source, hhere⟩ | hbehind
  · rw [← List.cons_append, ← htrace, List.append_assoc] at hhere
    exact not_prefix_sourceTrace _ _ hhere
  · exact hrest hbehind

/-! ### Excisions -/

theorem not_holdsSource_withoutSources (s : Text) : ¬ HoldsSource (withoutSources s) := by
  fun_induction withoutSources s with
  | case1 s hnone =>
    rintro ⟨source, hsource⟩
    rw [List.append_assoc] at hsource
    exact Text.cut?_eq_none.mp hnone ((List.prefix_append _ _).isInfix.trans hsource)
  | case2 s before inside hfirst hnone =>
    rw [Text.eq_of_cut?_eq_some hfirst]
    exact not_holdsSource_of_not_infix (Text.not_infix_of_cut? (by decide) hfirst)
      (Text.cut?_eq_none.mp hnone)
  | case3 s before inside hfirst raw rest hsecond ih =>
    exact not_holdsSource_sourceTrace (Text.not_infix_of_cut? (by decide) hfirst) ih

theorem withoutSources_of_not_holdsSource (h : ¬ HoldsSource s) : withoutSources s = s := by
  rw [withoutSources]
  split
  · rfl
  · next before inside hfirst =>
    split
    · rfl
    · next raw rest hsecond =>
      refine absurd ⟨raw, before, rest, ?_⟩ h
      rw [Text.eq_of_cut?_eq_some hfirst, Text.eq_of_cut?_eq_some hsecond]
      simp only [List.append_assoc]

/-- One pass is enough: it leaves no source, a second one changes nothing, and a text changes only
if there is a source in it. -/
theorem withoutSources_exhaustive (s : Text) :
    ¬ HoldsSource (withoutSources s) ∧ withoutSources (withoutSources s) = withoutSources s ∧
      (withoutSources s = s ↔ ¬ HoldsSource s) := by
  have hleft := not_holdsSource_withoutSources s
  refine ⟨hleft, withoutSources_of_not_holdsSource hleft, ?_, withoutSources_of_not_holdsSource⟩
  intro h
  rwa [h] at hleft

end LintReport.Output
