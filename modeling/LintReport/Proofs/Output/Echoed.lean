import LintReport.Output.Excision
import LintReport.Proofs.Text.Cut
import LintReport.Proofs.Text.Lines

/-!
Texts with echoed sources. Where the marks stand around the echoed sources and nowhere else, every
source is cut out as a whole, so what is left says nothing about them. Rejoining the lines of the
text before makes no mark and breaks none.
-/
namespace LintReport.Output

open Text (IsLine feeds joinLines lines)

/-- A text in which every source stands between its marks and has more text behind it. -/
def echoing : (start : Text) → (echoes : List (Text × Text)) → Text
  | start, [] => start
  | start, (source, rest) :: echoes =>
    start ++ sourceOpening ++ source ++ sourceClosing ++ echoing rest echoes

/-- The marks of the sources are the only ones. -/
structure OnlyMarked (start : Text) (echoes : List (Text × Text)) : Prop where
  outside : ∀ part ∈ start :: echoes.map Prod.snd, ¬ sourceOpening <:+: part
  inside : ∀ source ∈ echoes.map Prod.fst, ¬ sourceClosing <:+: source

variable {start before source rest : Text} {echoes echoes' : List (Text × Text)}

/-! ### Marks -/

theorem unbordered_sourceOpening : Text.Unbordered sourceOpening := by decide

theorem unbordered_sourceClosing : Text.Unbordered sourceClosing := by decide

theorem isLine_sourceOpening : IsLine sourceOpening := Text.isLine_ofString (by decide)

theorem isLine_sourceClosing : IsLine sourceClosing := Text.isLine_ofString (by decide)

theorem OnlyMarked.of_cons (h : OnlyMarked start ((source, rest) :: echoes)) :
    ¬ sourceOpening <:+: start ∧ ¬ sourceClosing <:+: source ∧ OnlyMarked rest echoes := by
  obtain ⟨houtside, hinside⟩ := h
  simp only [List.map_cons, List.forall_mem_cons] at houtside hinside
  exact ⟨houtside.1, hinside.1, List.forall_mem_cons.mpr houtside.2, hinside.2⟩

/-! ### Excisions -/

theorem withoutSources_of_not_infix (h : ¬ sourceOpening <:+: rest) : withoutSources rest = rest := by
  rw [withoutSources]
  split
  · rfl
  · next hsome =>
    rw [Text.cut?_eq_none.mpr h] at hsome
    cases hsome

theorem withoutSources_echo (hbefore : ¬ sourceOpening <:+: before)
    (hsource : ¬ sourceClosing <:+: source) (rest : Text) :
    withoutSources (before ++ sourceOpening ++ source ++ sourceClosing ++ rest) =
      before ++ sourceTrace ++ withoutSources rest := by
  have hfirst : Text.cut? sourceOpening
      (before ++ sourceOpening ++ source ++ sourceClosing ++ rest) =
        some (before, source ++ sourceClosing ++ rest) := by
    have hcut := Text.cut?_append unbordered_sourceOpening hbefore (source ++ sourceClosing ++ rest)
    simpa only [List.append_assoc] using hcut
  have hsecond := Text.cut?_append unbordered_sourceClosing hsource rest
  rw [withoutSources]
  split
  · next hnone => cases hnone.symm.trans hfirst
  · next hsome =>
    cases hsome.symm.trans hfirst
    split
    · next hnone => cases hnone.symm.trans hsecond
    · next hsome =>
      cases hsome.symm.trans hsecond
      rfl

/-- The trace of its marks is all that is left of a source. -/
theorem withoutSources_echoing (h : OnlyMarked start echoes) :
    withoutSources (echoing start echoes) =
      start ++ (echoes.map Prod.snd).flatMap (sourceTrace ++ ·) := by
  induction echoes generalizing start with
  | nil =>
    rw [echoing, withoutSources_of_not_infix (h.outside start List.mem_cons_self)]
    simp
  | cons echo echoes ih =>
    obtain ⟨source, rest⟩ := echo
    obtain ⟨hstart, hsource, hrest⟩ := h.of_cons
    rw [echoing, withoutSources_echo hstart hsource, ih hrest]
    simp

/-! ### Rejoined texts -/

theorem rejoined_echo (before source rest : Text) :
    joinLines (lines (before ++ sourceOpening ++ source ++ sourceClosing ++ rest)) =
      feeds before ++ sourceOpening ++ feeds source ++ sourceClosing ++ joinLines (lines rest) := by
  have hopening := Text.joinLines_lines_mark isLine_sourceOpening (by decide) before
    (source ++ sourceClosing ++ rest)
  rw [Text.joinLines_lines_mark isLine_sourceClosing (by decide)] at hopening
  simpa only [List.append_assoc] using hopening

theorem not_infix_feeds {mark s : Text} (hmark : IsLine mark) (h : ¬ mark <:+: s) :
    ¬ mark <:+: feeds s :=
  mt ((Text.settles_feeds s).infix_left hmark) h

/-- Other sources between the same texts leave the same text behind. -/
theorem withoutSources_rejoined (h : OnlyMarked start echoes) (h' : OnlyMarked start echoes')
    (hrests : echoes'.map Prod.snd = echoes.map Prod.snd) :
    withoutSources (joinLines (lines (echoing start echoes'))) =
      withoutSources (joinLines (lines (echoing start echoes))) := by
  induction echoes generalizing start echoes' with
  | nil => rw [List.map_eq_nil_iff.mp hrests]
  | cons echo echoes ih =>
    obtain ⟨source, rest⟩ := echo
    obtain ⟨⟨source', rest'⟩, echoes', rfl⟩ :=
      List.exists_cons_of_ne_nil (l := echoes') (by rintro rfl; cases hrests)
    obtain ⟨rfl, htail⟩ := List.cons.inj hrests
    obtain ⟨hstart, hsource, hrest⟩ := h.of_cons
    obtain ⟨-, hsource', hrest'⟩ := h'.of_cons
    have hbefore := not_infix_feeds isLine_sourceOpening hstart
    rw [echoing, echoing, rejoined_echo, rejoined_echo,
      withoutSources_echo hbefore (not_infix_feeds isLine_sourceClosing hsource),
      withoutSources_echo hbefore (not_infix_feeds isLine_sourceClosing hsource'),
      ih hrest hrest' htail]

end LintReport.Output
