import LintReport.Proofs.CommandLine.Run
import LintReport.Proofs.Finding.Critical

/-!
Critical runs. A run in which every tool succeeds ends as if the tools had been asked themselves:
its exit code says that there are critical issues if a tool said so about a finding, by the words
of that tool, and not otherwise.
-/
namespace LintReport

open Pipeline (Context Succeeds contextOf issuesOf takesPart)

theorem exists_iff_of_forall₂ {α β : Type} {R : α → β → Prop} {p : α → Prop} {q : β → Prop}
    {xs : List α} {ys : List β} (h : List.Forall₂ R xs ys) (hR : ∀ x y, R x y → (q y ↔ p x)) :
    (∃ y ∈ ys, q y) ↔ ∃ x ∈ xs, p x := by
  induction h with
  | nil => simp
  | cons hxy _ ih => simp only [List.exists_mem_cons_iff, ih, hR _ _ hxy]

theorem Summary.countCritical_pos_iff {issues : List Issue} :
    0 < countCritical issues ↔ ∃ issue ∈ issues, issue.severity = .critical := by
  simp [countCritical, List.countP_pos_iff]

namespace Pipeline

variable {w : Workspace} {c : Context} {t : Tool}

theorem succeeds_iff : succeeds w c t = true ↔ Succeeds w c t := by
  rcases h : stageOutcome w c t with fault | issues | output <;>
    simp [succeeds, Succeeds, issuesOf, h]

/-- A stage whose tool said of some finding that it is critical. -/
def FindsCritical (w : Workspace) (c : Context) (t : Tool) : Prop :=
  ∃ r, Command.resultIn w (t.command c.settings c.interpreter) c.settings.limit = .ok r ∧
    ∃ remark ∈ t.remarks c.settings.reporter r.output, t.FindsCritical remark

/-- A stage that succeeds has critical issues if its tool said so. -/
theorem exists_critical_iff (h : Succeeds w c t) :
    (∃ issue ∈ issuesOf w c t, issue.severity = .critical) ↔ FindsCritical w c t := by
  have houtcome : stageOutcome w c t = .ok (.ok (issuesOf w c t)) := h
  unfold stageOutcome at houtcome
  dsimp only at houtcome
  split at houtcome
  · obtain ⟨r, hr, hvalue⟩ := bind_eq_ok houtcome
    rw [exists_iff_of_forall₂ (Tool.forall₂_weighs hvalue)
      fun remark issue hweighs => hweighs.critical_iff]
    constructor
    · exact fun hremark => ⟨r, hr, hremark⟩
    · rintro ⟨r', hr', hremark⟩
      cases hr.symm.trans hr'
      exact hremark
  · cases houtcome

/-- If all stages succeed, there are critical issues if one of their tools said so. -/
theorem countCritical_pos_iff
    (h : ∀ t, takesPart w c.settings t = true → Succeeds w c t) :
    0 < Summary.countCritical
        ((Tool.all.filter (takesPart w c.settings)).flatMap (issuesOf w c)) ↔
      ∃ t, takesPart w c.settings t = true ∧ FindsCritical w c t := by
  rw [Summary.countCritical_pos_iff]
  constructor
  · rintro ⟨issue, hissue, hcritical⟩
    obtain ⟨t, ht, hissue⟩ := List.mem_flatMap.mp hissue
    have hpart := (List.mem_filter.mp ht).2
    exact ⟨t, hpart, (exists_critical_iff (h t hpart)).mp ⟨issue, hissue, hcritical⟩⟩
  · rintro ⟨t, hpart, hfinds⟩
    obtain ⟨issue, hissue, hcritical⟩ := (exists_critical_iff (h t hpart)).mpr hfinds
    have ht := List.mem_filter.mpr ⟨t.mem_all, hpart⟩
    exact ⟨issue, List.mem_flatMap.mpr ⟨t, ht, hissue⟩, hcritical⟩

end Pipeline

namespace CommandLine

/-- A run with valid settings in which no stage fails shows its issues. -/
theorem EndsAs.shows_of_succeed {o : Options} {σ ρ : Session} {s : Settings} {ending : Ending}
    {records : List Record} (h : EndsAs o σ ending records) (hs : o.settings.run σ = .ok s ρ)
    (hsucceed : ∀ t, takesPart σ.workspace s t = true →
      Succeeds σ.workspace (contextOf σ.workspace σ.directory s Tool.all none) t) :
    Shows s ((Tool.all.filter (takesPart σ.workspace s)).flatMap
      (issuesOf σ.workspace (contextOf σ.workspace σ.directory s Tool.all none)))
      ending records := by
  have hvalid : ending.exitCode ≠ exitInvalidSettings := by
    intro hcode
    obtain ⟨problems, ρ', hfault⟩ := h.invalid_iff.mp hcode
    cases hs.symm.trans hfault
  obtain ⟨s', c, active, ρ', hs', rfl, rfl, hends⟩ := h.valid hvalid
  cases hs.symm.trans hs'
  rcases hends with ⟨before, first, after, output, hactive, -, hfails, -⟩ | ⟨-, hshows⟩
  · have hfirst : first ∈ Tool.all.filter (takesPart σ.workspace s) := by simp [hactive]
    have hsucceeds := hsucceed first (List.mem_filter.mp hfirst).2
    cases hsucceeds.symm.trans hfails
  · exact hshows

/-- A remark about a finding decides whether its issue is critical, and the issues of the two tools
without severities never are. So where every tool that takes part succeeds, a run that is not strict
ends with the exit code of critical issues if and only if one of these tools called a finding
critical in its own words. -/
theorem run_critical :
    (∀ (t : Tool) (s : Settings) (workingDir sourceDir : Path) (exitCode : Int) (output : Text)
        (σ τ : Session) (issues : List Issue),
      (t.outcome s workingDir sourceDir exitCode output).run σ = .ok (.ok issues) τ →
      List.Forall₂ (fun remark issue => t.Weighs remark issue.severity)
        (t.remarks s.reporter output) issues) ∧
    ∀ (arguments : List Text) (o : Options) (σ τ ρ : Session) (s : Settings) (ending : Ending)
        (c : Context),
      σ.Placed → request arguments = .run o → (run arguments).run σ = .ok ending τ →
      o.settings.run σ = .ok s ρ → s.strict = false →
      c = contextOf σ.workspace σ.directory s Tool.all none →
      (∀ t, takesPart σ.workspace s t = true → Succeeds σ.workspace c t) →
      ((∃ t, takesPart σ.workspace s t = true ∧ Pipeline.FindsCritical σ.workspace c t) →
          ending.exitCode = 7) ∧
        ((¬ ∃ t, takesPart σ.workspace s t = true ∧ Pipeline.FindsCritical σ.workspace c t) →
          ending.exitCode = 0) := by
  constructor
  · intro t s workingDir sourceDir exitCode output σ τ issues hrun
    have hquiet : Action.Quiet σ.workspace σ.directory (t.outcome s _ _ _ _) :=
      t.quiet_outcome s workingDir sourceDir exitCode output
    exact Tool.forall₂_weighs (hquiet.of_run hrun).1
  · rintro arguments o σ τ ρ s ending c hσ hrequest hrun hs hstrict rfl hsucceed
    rw [run, hrequest] at hrun
    have hshows := (endsAs_of_run hσ hrun).shows_of_succeed hs hsucceed
    have hfound := Pipeline.countCritical_pos_iff (w := σ.workspace)
      (c := contextOf σ.workspace σ.directory s Tool.all none) hsucceed
    constructor
    · intro hfinds
      have hpos := hfound.mpr hfinds
      rw [hshows.code, hstrict, if_neg (by simp), if_pos ⟨rfl, hpos⟩]
    · intro hnone
      have hzero := mt hfound.mp hnone
      rw [hshows.code, hstrict, if_neg (by simp), if_neg fun h => hzero h.2]

/-- A session with one tool, which cannot parse a source. -/
def parseErrorSession : Session :=
  { Pipeline.psalmSession with
    workspace := { Pipeline.psalmSession.workspace with
      tools := [("psalm", { output :=
        (Text.ofString "[\x7b\"type\":\"ParseError\"\x7d]").flatMap CodePoint.utf8 })] } }

/-- The run ends with the exit code of critical issues, so a tool has said so. -/
theorem run_critical_parseErrorSession :
    ∃ s ρ ending τ t, (run []).run parseErrorSession = .ok ending τ ∧ ending.exitCode = 7 ∧
      (Settings.load (some ".") (some ".") []).run parseErrorSession = .ok s ρ ∧
      takesPart parseErrorSession.workspace s t = true ∧
      Pipeline.FindsCritical parseErrorSession.workspace
        (contextOf parseErrorSession.workspace parseErrorSession.directory s Tool.all none) t := by
  have hplaced : parseErrorSession.Placed := ⟨Snapshot.resolved_home, by decide⟩
  obtain ⟨o, s, ρ, hrequest, hs, hload, hstrict, hgo⟩ : ∃ o s ρ, request [] = .run o ∧
      o.settings.run parseErrorSession = .ok s ρ ∧
      (Settings.load (some ".") (some ".") []).run parseErrorSession = .ok s ρ ∧
      s.strict = false ∧
      ∀ t ∈ Tool.all, takesPart parseErrorSession.workspace s t = true →
        Pipeline.succeeds parseErrorSession.workspace
          (contextOf parseErrorSession.workspace parseErrorSession.directory s Tool.all none) t :=
    ⟨_, _, _, rfl, rfl, rfl, rfl, by decide +kernel⟩
  have hcode : (ending? ((run []).run parseErrorSession)).map (·.exitCode) = some 7 := by
    decide +kernel
  obtain ⟨ending, hending, hseven⟩ := Option.map_eq_some_iff.mp hcode
  obtain ⟨τ, hrun⟩ := eq_of_ending? hending
  have hends := run_critical.2 [] o parseErrorSession τ ρ s ending _ hplaced hrequest hrun hs
    hstrict rfl fun t hpart => Pipeline.succeeds_iff.mp (hgo t t.mem_all hpart)
  by_contra hnone
  have hzero := hends.2 fun ⟨t, hpart, hfinds⟩ =>
    hnone ⟨s, ρ, ending, τ, t, hrun, hseven, hload, hpart, hfinds⟩
  cases hseven.symm.trans hzero

end CommandLine

end LintReport
