import LintReport.Proofs.Pipeline.Trace

/-!
Roots that a run has reached. A run that returns has entered the root of the PHP sources, and that
of the scripts too unless a PHP tool failed. So they exist, and the run had the effect of its
stages.
-/
namespace LintReport.Pipeline

open LintReport.Action (HasEffect entryFault hasEffect_changeDirectory hasEffect_get_bind)

variable {w : Workspace} {d : Path} {c : Context} {s : Settings} {tools : List Tool}

theorem hasEffect_enter_missing {p : Path} (hp : p.Resolved) (hd : w.isDirectory d)
    (h : ¬ w.isDirectory p) : HasEffect w d (Action.enter p) ⟨.error (entryFault w p), [], d⟩ := by
  apply hasEffect_get_bind
  rintro σ rfl rfl
  have hne : σ.directory ≠ p := fun heq => h (heq ▸ hd)
  rw [if_pos hne]
  have hchange := hasEffect_changeDirectory (w := σ.workspace) (d := σ.directory) hp
  rwa [if_neg h] at hchange

theorem hasEffect_groupIssues_missing {g : Tool.Group} (hroot : (c.settings.root g).Resolved)
    (hd : w.isDirectory d) (h : ¬ w.isDirectory (c.settings.root g)) :
    HasEffect w d (groupIssues c tools g).run
      ⟨.error (entryFault w (c.settings.root g)), [], d⟩ := by
  rw [run_groupIssues]
  exact (hasEffect_enter_missing hroot hd h).bind_error

/-- Without a root that it gets to, a run over all groups ends in a fault. -/
theorem hasEffect_allIssues_missing (hroot : ∀ g, (c.settings.root g).Resolved)
    (hd : w.isDirectory d)
    (h : ¬ w.isDirectory (c.settings.root .php) ∨
      (activeIn w c.settings tools .php).all (succeeds w c) = true ∧
        ¬ w.isDirectory (c.settings.root .js)) :
    ∃ fault calls d', HasEffect w d (allIssues c tools).run ⟨.error fault, calls, d'⟩ := by
  have hall : allIssues c tools = gathered (groupIssues c tools) groups := rfl
  rw [hall, groups, gathered_cons]
  by_cases hphp : w.isDirectory (c.settings.root .php)
  · obtain ⟨hsucceed, hjs⟩ := h.resolve_left (not_not_intro hphp)
    rw [← goesOn_resultOf] at hsucceed
    have hfirst := @hasEffect_groupIssues w d c tools .php (hroot .php) hphp
    have hsecond : HasEffect w (c.settings.root .php) (gathered (groupIssues c tools) [.js]).run
        ⟨.error (entryFault w (c.settings.root .js)), [], c.settings.root .php⟩ := by
      rw [gathered_cons, gathered_nil]
      exact (hasEffect_groupIssues_missing (hroot .js) hphp hjs).run_bind_error
    have hjoined := hasEffect_joined hfirst fun _ => hsecond
    rcases hr : resultOf w c (activeIn w c.settings tools .php) with fault | failure | issues
    · rw [hr] at hsucceed
      cases hsucceed
    · rw [hr] at hsucceed
      cases hsucceed
    · rw [hr] at hjoined
      exact ⟨_, _, _, hjoined⟩
  · exact ⟨_, _, _, (hasEffect_groupIssues_missing (hroot .php) hd hphp).run_bind_error⟩

theorem hasEffect_run_missing {workingDir : Option Path} (hd : d.Resolved) (hdir : w.isDirectory d)
    (hroot : ∀ g, (s.root g).Resolved)
    (h : ¬ w.isDirectory (s.root .php) ∨
      (activeIn w s tools .php).all (succeeds w (contextOf w d s tools workingDir)) = true ∧
        ¬ w.isDirectory (s.root .js)) :
    ∃ fault calls, HasEffect w d (run s tools workingDir) ⟨.error fault, calls, d⟩ := by
  obtain ⟨fault, calls, d', hall⟩ :=
    hasEffect_allIssues_missing (c := contextOf w d s tools workingDir) hroot hdir h
  have hback := hall.returning hd hdir
  refine ⟨fault, (probed w s tools).map (probeCall s d) ++ calls, ?_⟩
  apply hasEffect_get_bind
  rintro σ - rfl
  exact (hasEffect_interpreterFor (hroot .js)).bind hback.bind_error

/-- A run that returns has the result of its stages. -/
theorem result_of_run {σ σ' : Session} {workingDir : Option Path}
    {result : Except Failure (List Issue)} (hσ : σ.Placed) (hroot : ∀ g, (s.root g).Resolved)
    (hrun : (run s tools workingDir).run σ = .ok result σ') :
    resultOf σ.workspace (contextOf σ.workspace σ.directory s tools workingDir)
      (stages σ.workspace s tools) = .ok result := by
  by_cases hmissing : ¬ σ.workspace.isDirectory (s.root .php) ∨
      (activeIn σ.workspace s tools .php).all (succeeds σ.workspace
        (contextOf σ.workspace σ.directory s tools workingDir)) = true ∧
        ¬ σ.workspace.isDirectory (s.root .js)
  · obtain ⟨fault, calls, heffect⟩ :=
      hasEffect_run_missing hσ.resolved hσ.exists_directory hroot hmissing
    cases (heffect.of_run hrun).1
  · obtain ⟨hphp, hjs⟩ := not_or.mp hmissing
    have heffect : HasEffect σ.workspace σ.directory (run s tools workingDir) _ :=
      hasEffect_run_stages hσ.resolved hσ.exists_directory hroot (Decidable.not_not.mp hphp)
        fun hsucceed => Decidable.not_not.mp fun hno => hjs ⟨hsucceed, hno⟩
    exact (heffect.of_run hrun).1

end LintReport.Pipeline
