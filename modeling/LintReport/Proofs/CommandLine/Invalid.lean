import LintReport.Proofs.CommandLine.Run
import LintReport.Proofs.Session.Kept

/-!
Runs with invalid settings. A value that is checked and refused is reported, and the run ends with
an exit code of its own. But the paths among the values are resolved before the checks, and nobody
catches the fault of one that cannot be. No other path can fail here: it is assumed that no root is
too long for its Composer file to be looked for, as a workspace sets no limit to the length of a
name.
-/
namespace LintReport.CommandLine

open Settings (NamesPaths)

variable {o : Options} {σ ρ : Session}

theorem given_settingsOf (o : Options) (σ : Session) :
    (settingsOf o).given σ = caughtResult (o.settings.given σ) := by
  rw [Action.given, run_settingsOf, Action.given]
  cases o.settings.run σ with
  | ok s τ => rfl
  | error fault τ => cases fault <;> rfl

theorem given_settings (o : Options) (σ : Session) :
    o.settings.given σ =
      Settings.loadIn σ.workspace σ.directory (some o.phpRoot) (some o.jsRoot) o.overrides :=
  (Settings.hasEffect_load _ _ _).given_eq

/-- What becomes of a run once the diagnostics are set up depends on its settings. -/
theorem given_runWith
    (hconfigure : (Action.configure (o.verbosity.elim 1 fun n => n)).run σ = .ok () ρ) :
    (∀ problems, o.settings.given σ = .error (.invalidSettings problems) →
      (runWith o).given σ = .ok ⟨exitInvalidSettings, []⟩) ∧
    ∀ fault, fault.isOfPath = true → o.settings.given σ = .error fault →
      (runWith o).given σ = .error fault := by
  obtain ⟨hworkspace, hdirectory⟩ := run_configure_eq_ok hconfigure
  have hsettings : o.settings.given ρ = o.settings.given σ := by
    rw [given_settings, given_settings, hworkspace, hdirectory]
  have hconfigured : (Action.configure (o.verbosity.elim 1 fun n => n)).given σ = .ok () ∧
      (Action.configure (o.verbosity.elim 1 fun n => n)).after σ = ρ := by
    rw [Action.given, Action.after, hconfigure]
    exact ⟨rfl, rfl⟩
  unfold runWith
  rw [Action.given_bind, hconfigured.1, hconfigured.2]
  change (∀ problems, _ → (settingsOf o >>= _).given ρ = _) ∧
    ∀ fault, _ → _ → (settingsOf o >>= _).given ρ = _
  rw [Action.given_bind, given_settingsOf, hsettings]
  constructor
  · intro problems hproblems
    rw [hproblems]
    rfl
  · intro fault hpath hfault
    rw [hfault]
    cases fault with
    | invalidSettings problems => cases hpath
    | _ => rfl

/-- If the paths among the values can be resolved, which shows in their spelling, loading gives
settings or all problems with them, and a run with problems says so in its exit code and prints no
report. Otherwise loading ends in the fault of a path, and the run ends in it as well. -/
theorem run_invalid (σ : Session) :
    (∀ (phpRoot jsRoot : Option Text) (overrides : Table Json),
      (NamesPaths σ.workspace σ.directory phpRoot jsRoot overrides →
        (∃ s, (Settings.load phpRoot jsRoot overrides).given σ = .ok s) ∨
          ∃ problems, problems ≠ [] ∧
            (Settings.load phpRoot jsRoot overrides).given σ =
              .error (.invalidSettings problems)) ∧
      (¬ NamesPaths σ.workspace σ.directory phpRoot jsRoot overrides →
        ∃ fault, fault.isOfPath = true ∧
          (Settings.load phpRoot jsRoot overrides).given σ = .error fault)) ∧
    ∀ (arguments : List Text) (o : Options) (ρ : Session),
      request arguments = .run o →
      (Action.configure (o.verbosity.elim 1 fun n => n)).run σ = .ok () ρ →
      (NamesPaths σ.workspace σ.directory (some o.phpRoot) (some o.jsRoot) o.overrides →
        (∃ s, o.settings.given σ = .ok s) ∨
          (run arguments).given σ = .ok ⟨exitInvalidSettings, []⟩) ∧
      (¬ NamesPaths σ.workspace σ.directory (some o.phpRoot) (some o.jsRoot) o.overrides →
        ∃ fault, fault.isOfPath = true ∧ (run arguments).given σ = .error fault) := by
  constructor
  · intro phpRoot jsRoot overrides
    rw [(Settings.hasEffect_load _ _ _).given_eq]
    exact Settings.loadIn_spec _ _ _ _ _
  · intro arguments o ρ hrequest hconfigure
    obtain ⟨hresolved, hunresolved⟩ := Settings.loadIn_spec σ.workspace σ.directory
      (some o.phpRoot) (some o.jsRoot) o.overrides
    rw [← given_settings] at hresolved hunresolved
    obtain ⟨hinvalid, hfaulty⟩ := given_runWith hconfigure
    rw [run, hrequest]
    constructor
    · intro hpaths
      rcases hresolved hpaths with hs | ⟨problems, -, hproblems⟩
      · exact .inl hs
      · exact .inr (hinvalid problems hproblems)
    · intro hpaths
      obtain ⟨fault, hpath, hfault⟩ := hunresolved hpaths
      exact ⟨fault, hpath, hfaulty fault hpath hfault⟩

/-- A session with a Composer file that holds one setting. -/
def settingSession (setting : String) : Session where
  workspace := {
    files := [(⟨.slash, ["project", "composer.json"]⟩,
      (Text.ofString ("\x7b\"extra\":\x7b\"gitlab-code-quality\":\x7b" ++ setting ++
        "\x7d\x7d\x7d")).flatMap CodePoint.utf8)] }
  directory := Snapshot.home

/-- Does loading end in the fault of a path, caught by nobody? -/
def isPathFault : Except Fault Settings → Bool
  | .ok _ => false
  | .error fault => fault.isOfPath

/-- A switch that is no switch is reported. A directory that is no text ends the run in a fault, and
so does one with a null character in a name that double dots take back. -/
theorem run_invalid_settingSession :
    (run []).given (settingSession "\"strict\":5") = .ok ⟨exitInvalidSettings, []⟩ ∧
      ∀ setting ∈ ["\"bin_dir\":5", "\"bin_dir\":\"a\\u0000b/..\""], ∃ fault,
        fault.isOfPath = true ∧ (run []).given (settingSession setting) = .error fault := by
  have hrequest : request [] = .run {} := rfl
  have hconfigure (setting : String) : ∃ ρ,
      (Action.configure 1).run (settingSession setting) = .ok () ρ := ⟨_, rfl⟩
  have hload (setting : String) := (run_invalid (settingSession setting)).1 (some []) (some [])
    ({} : Options).overrides
  constructor
  · obtain ⟨ρ, hρ⟩ := hconfigure "\"strict\":5"
    obtain ⟨hends, -⟩ := (run_invalid (settingSession "\"strict\":5")).2 [] {} ρ hrequest hρ
    have hnofault : isPathFault ((Options.settings {}).given (settingSession "\"strict\":5")) =
        false := by decide +kernel
    have hrefused : ((Options.settings {}).given (settingSession "\"strict\":5")).isOk =
        false := by decide +kernel
    refine (hends (by_contra fun hpaths => ?_)).resolve_left ?_
    · obtain ⟨fault, hpath, hfault⟩ := (hload "\"strict\":5").2 hpaths
      cases hpath.symm.trans ((congrArg isPathFault hfault).symm.trans hnofault)
    · rintro ⟨s, hs⟩
      rw [hs] at hrefused
      cases hrefused
  · have hfaults : ∀ setting ∈ ["\"bin_dir\":5", "\"bin_dir\":\"a\\u0000b/..\""],
        isPathFault ((Options.settings {}).given (settingSession setting)) = true := by
      decide +kernel
    intro setting hsetting
    obtain ⟨ρ, hρ⟩ := hconfigure setting
    obtain ⟨-, hends⟩ := (run_invalid (settingSession setting)).2 [] {} ρ hrequest hρ
    refine hends fun hpaths => ?_
    have hfault := hfaults setting hsetting
    rcases (hload setting).1 hpaths with ⟨s, hs⟩ | ⟨problems, -, hproblems⟩
    · cases (congrArg isPathFault hs).symm.trans hfault
    · cases (congrArg isPathFault hproblems).symm.trans hfault

end LintReport.CommandLine
