import LintReport.Proofs.Finding.Interrupted
import LintReport.Proofs.Pipeline.Trace

/-!
Runs with an interrupted stage. A stage whose command has no program behind it, or whose time is up,
ends the run with the output of that command, whatever was printed until then. Annotations are the
exception: those that were printed in time make the stage succeed.
-/
namespace LintReport.Pipeline

open LintReport.Action (HasEffect)
open Command (Interrupted)

variable {w : Workspace} {d : Path} {c : Context} {s : Settings} {t : Tool} {r : CommandResult}

/-! ### One stage -/

theorem stageOutcome_of_interrupted (hstart : canStart c t = true)
    (hr : Interrupted w (t.command c.settings c.interpreter) c.settings.limit r) :
    stageOutcome w c t = Action.value w (c.settings.root t.group)
      (t.outcome c.settings c.workingDir (c.settings.root t.group) r.exitCode r.output) := by
  rw [stageOutcome, if_pos hstart, hr.resultIn_eq]
  rfl

theorem fails_of_interrupted (hstart : canStart c t = true)
    (hr : Interrupted w (t.command c.settings c.interpreter) c.settings.limit r)
    (ht : ¬ TakenForReport w c.settings t (t.command c.settings c.interpreter)) :
    Fails w c t r.output :=
  (stageOutcome_of_interrupted hstart hr).trans (hr.outcome_failed ht)

theorem not_fails_of_taken {output : Text} (hstart : canStart c t = true)
    (hr : Interrupted w (t.command c.settings c.interpreter) c.settings.limit r)
    (ht : TakenForReport w c.settings t (t.command c.settings c.interpreter)) :
    ¬ Fails w c t output := by
  intro hfails
  have houtcome := (stageOutcome_of_interrupted hstart hr).trans (hr.outcome_of_taken ht)
  rw [show stageOutcome w c t = .ok (.failed output) from hfails] at houtcome
  obtain ⟨issues, -, hissues⟩ := Json.map_eq_ok houtcome.symm
  cases hissues

/-! ### The run -/

theorem resultOf_of_fails {before after : List Tool} {output : Text}
    (hbefore : ∀ u ∈ before, Succeeds w c u) (hfails : Fails w c t output) :
    resultOf w c (before ++ t :: after) = .ok (.error ⟨t, output⟩) := by
  have hstage : stageResult w c t = .ok (.error ⟨t, output⟩) := by
    rw [stageResult, show stageOutcome w c t = .ok (.failed output) from hfails]
    rfl
  have hgoes : goesOn (resultOf w c before) = true := by
    rw [goesOn_resultOf, List.all_eq_true]
    intro u hu
    rw [succeeds, show stageOutcome w c u = .ok (.ok (issuesOf w c u)) from hbefore u hu]
  rw [resultOf_append, resultOf, hstage]
  rcases hr : resultOf w c before with fault | failure | issues
  · rw [hr] at hgoes
    cases hgoes
  · rw [hr] at hgoes
    cases hgoes
  · rfl

/-- The scripts' root matters only if the run gets to the scripts. -/
theorem not_all_succeed {before after : List Tool} {output : Text}
    (hstages : stages w s Tool.all = before ++ t :: after) (hphp : t.group = .php)
    (hfails : Fails w c t output) :
    (activeIn w s Tool.all .php).all (succeeds w c) = false := by
  have hmem : t ∈ activeIn w s Tool.all .php := by
    have ht : t ∈ stages w s Tool.all := by rw [hstages]; simp
    rw [stages_all, List.mem_filter] at ht
    rw [activeIn, List.mem_filter, List.mem_filter]
    exact ⟨⟨ht.1, by simpa using hphp⟩, ht.2⟩
  refine List.all_eq_false.mpr ⟨t, hmem, ?_⟩
  rw [succeeds, show stageOutcome w c t = .ok (.failed output) from hfails]
  simp

/-- An interrupted stage ends the run with its own failure, exactly if what its tool printed in
time is not taken for a report. A report that is taken for one is all that its stage gives. -/
theorem run_interrupted {σ₀ σ₁ σ : Session} {phpRoot jsRoot : Option Text} {overrides : Table Json}
    {workingDir : Option Path} {before after : List Tool} (hσ₀ : σ₀.directory.Resolved)
    (hload : (Settings.load phpRoot jsRoot overrides).run σ₀ = .ok s σ₁) (hσ : σ.Placed)
    (hphp : σ.workspace.isDirectory s.phpRoot)
    (hjs : t.group = .js → σ.workspace.isDirectory s.jsRoot)
    (hc : c = contextOf σ.workspace σ.directory s Tool.all workingDir)
    (hstages : stages σ.workspace s Tool.all = before ++ t :: after)
    (hbefore : ∀ u ∈ before, Succeeds σ.workspace c u) (hstart : canStart c t = true)
    (hr : Interrupted σ.workspace (t.command s c.interpreter) s.limit r) :
    ((∃ σ', (run s Tool.all workingDir).run σ = .ok (.error ⟨t, r.output⟩) σ') ↔
      ¬ TakenForReport σ.workspace s t (t.command s c.interpreter)) ∧
    (TakenForReport σ.workspace s t (t.command s c.interpreter) →
      stageOutcome σ.workspace c t =
        ((printedAnnotations σ.workspace (t.command s c.interpreter)).mapM fun a =>
          (Biome.annotationFinding a).toIssue c.workingDir.toText).map .ok) := by
  subst hc
  have hroot : ∀ g, (s.root g).Resolved := Settings.resolved_roots hσ₀ hload
  refine ⟨⟨?_, ?_⟩, fun htaken =>
    (stageOutcome_of_interrupted hstart hr).trans (hr.outcome_of_taken htaken)⟩
  · rintro ⟨σ', hrun⟩ htaken
    have hjsRoot : σ.workspace.isDirectory s.jsRoot := hjs (by rw [htaken.1]; rfl)
    have heffect : HasEffect σ.workspace σ.directory (run s Tool.all workingDir) _ :=
      hasEffect_run_stages hσ.resolved hσ.exists_directory hroot hphp fun _ => hjsRoot
    rcases resultOf_eq_ok (heffect.of_run hrun).1 with
      ⟨-, -, hresult⟩ | ⟨_, first, _, output, -, -, hfails, -, hresult⟩
    · cases hresult
    · cases hresult
      exact not_fails_of_taken hstart hr htaken hfails
  · intro htaken
    have hfails := fails_of_interrupted hstart hr htaken
    -- a PHP tool that fails leaves no way to the root of the scripts, which may be missing
    have heffect : HasEffect σ.workspace σ.directory (run s Tool.all workingDir) _ :=
      hasEffect_run_stages hσ.resolved hσ.exists_directory hroot hphp fun hall => by
        cases hgroup : t.group with
        | php =>
          rw [not_all_succeed hstages hgroup hfails] at hall
          cases hall
        | js => exact hjs hgroup
    rw [hstages, resultOf_of_fails hbefore hfails] at heffect
    obtain ⟨records, shown, hrun⟩ := heffect.run_eq
    exact ⟨_, hrun⟩

/-- A session with one tool, which prints the annotation `::e::m` and never ends. -/
def hangingSession : Session where
  workspace := {
    files := [(⟨.slash, ["project", "node_modules", "@biomejs", "biome", "bin", "biome"]⟩, [])]
    tools := [("biome", { output := [0x3A, 0x3A, 0x65, 0x3A, 0x3A, 0x6D], hangs := true })]
    versions := [("bun", {})] }
  directory := Snapshot.home

theorem run_interrupted_hangingSession :
    ∃ s σ₁ r, (Settings.load none none [("timeout", .float (.finite false 1 0))]).run
        hangingSession = .ok s σ₁ ∧
      stages hangingSession.workspace s Tool.all = [.biome] ∧
      Interrupted hangingSession.workspace (Tool.biome.command s (some "bun")) s.limit r ∧
      ¬ ∃ σ', (run s Tool.all none).run hangingSession = .ok (.error ⟨.biome, r.output⟩) σ' := by
  obtain ⟨s, σ₁, hload, hphp, hjs, hreporter, hstages, hinterpreter, hprocess, hlimit⟩ :
      ∃ s σ₁, (Settings.load none none [("timeout", .float (.finite false 1 0))]).run
        hangingSession = .ok s σ₁ ∧
      hangingSession.workspace.isDirectory s.phpRoot ∧
      hangingSession.workspace.isDirectory s.jsRoot ∧ s.reporter = .annotations ∧
      stages hangingSession.workspace s Tool.all = [.biome] ∧
      interpreterIn hangingSession.workspace s Tool.all = some (Text.ofString "bun") ∧
      hangingSession.workspace.process? (Tool.biome.command s (some "bun")) =
        some { output := [0x3A, 0x3A, 0x65, 0x3A, 0x3A, 0x6D], hangs := true } ∧
      s.limit = some (.real (.finite false 1 0)) :=
    ⟨_, _, rfl, by decide, by decide, rfl, by decide, by decide, rfl, rfl⟩
  have hplaced : hangingSession.Placed := ⟨Snapshot.resolved_home, by decide⟩
  have hr : Interrupted hangingSession.workspace (Tool.biome.command s (some "bun")) s.limit _ :=
    .timedOut hprocess hlimit rfl
  have htaken : TakenForReport hangingSession.workspace s .biome
      (Tool.biome.command s (some "bun")) := by
    refine ⟨rfl, hreporter, ?_⟩
    rw [printedAnnotations, hprocess]
    decide
  have hcontext : (contextOf hangingSession.workspace hangingSession.directory s Tool.all
      none).interpreter = some (Text.ofString "bun") := hinterpreter
  have hstart : canStart (contextOf hangingSession.workspace hangingSession.directory s Tool.all
      none) .biome = true := by
    rw [canStart, hcontext]
    rfl
  have hnone : ∀ u ∈ ([] : List Tool), Succeeds hangingSession.workspace
      (contextOf hangingSession.workspace hangingSession.directory s Tool.all none) u :=
    fun u hu => absurd hu List.not_mem_nil
  obtain ⟨hends, -⟩ := run_interrupted Snapshot.resolved_home hload hplaced hphp (fun _ => hjs) rfl
    hstages hnone hstart (by rw [hcontext]; exact hr)
  rw [hcontext] at hends
  exact ⟨s, σ₁, _, hload, hstages, hr, fun hrun => hends.mp hrun htaken⟩

end LintReport.Pipeline
