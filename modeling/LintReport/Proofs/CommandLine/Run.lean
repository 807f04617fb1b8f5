import LintReport.CommandLine.Run
import LintReport.Proofs.Finding.Sealed
import LintReport.Proofs.Pipeline.Reached
import LintReport.Proofs.Report.Tally
import LintReport.Proofs.Settings.Loaded

/-!
Runs of the program. The exit code of a run tells whether the settings were invalid, which tool was
the first that failed, or what the report says about the issues. The report, the statistics and the
exit code agree on the issues, and only a run without failures prints a report.
-/
namespace LintReport

open LintReport.Action (Quiet value)

variable {w : Workspace}

/-! ### Settings -/

theorem Action.run_configure (verbosity : Int) (σ : Session) :
    (configure verbosity).run σ =
      match Diagnostics.configure σ.workspace.environment verbosity with
      | .ok diagnostics => .ok () { σ with diagnostics }
      | .error fault => .error fault σ := by
  unfold configure
  rw [EStateM.run_bind, EStateM.run_get]
  dsimp only
  cases Diagnostics.configure σ.workspace.environment verbosity <;> rfl

/-- Two sessions in one place are alike to an action that only looks around. -/
theorem Action.Quiet.run_alike {α : Type} {a : Action α} {σ τ : Session}
    (h : Quiet σ.workspace σ.directory a) (hw : τ.workspace = σ.workspace)
    (hd : τ.directory = σ.directory) :
    (∀ x τ', a.run τ = .ok x τ' → (∃ σ', a.run σ = .ok x σ') ∧
      τ'.workspace = σ.workspace ∧ τ'.directory = σ.directory) ∧
    ∀ fault τ', a.run τ = .error fault τ' → ∃ σ', a.run σ = .error fault σ' := by
  obtain ⟨records, shown, hσ⟩ := h.run_eq
  obtain ⟨records', shown', hτ⟩ := h τ hw hd
  rw [hσ, hτ, Effect.ending, Effect.ending]
  cases value σ.workspace σ.directory a with
  | ok x =>
    constructor
    · intro y τ' heq
      cases heq
      exact ⟨⟨_, rfl⟩, hw, rfl⟩
    · intro fault τ' heq
      cases heq
  | error fault =>
    constructor
    · intro y τ' heq
      cases heq
    · intro fault' τ' heq
      cases heq
      exact ⟨_, rfl⟩

namespace CommandLine

/-- The settings of a run. -/
def Options.settings (o : Options) : Action Settings :=
  Settings.load (some o.phpRoot) (some o.jsRoot) o.overrides

variable {o : Options} {σ τ : Session}

theorem run_configure_eq_ok {verbosity : Int} (h : (Action.configure verbosity).run σ = .ok () τ) :
    τ.workspace = σ.workspace ∧ τ.directory = σ.directory := by
  rw [Action.run_configure] at h
  split at h
  · injection h with _ hτ
    exact hτ ▸ ⟨rfl, rfl⟩
  · cases h

/-- What becomes of the settings of a run: only invalid ones are caught. -/
def caught : EStateM.Result Fault Session Settings →
    EStateM.Result Fault Session (Except (List Problem) Settings)
  | .ok s τ => .ok (.ok s) τ
  | .error (.invalidSettings problems) τ => .ok (.error problems) τ
  | .error fault τ => .error fault τ

/-- What a run gets for its settings. -/
def caughtResult : Except Fault Settings → Except Fault (Except (List Problem) Settings)
  | .ok s => .ok (.ok s)
  | .error (.invalidSettings problems) => .ok (.error problems)
  | .error fault => .error fault

theorem run_settingsOf (o : Options) (σ : Session) :
    (settingsOf o).run σ = caught (o.settings.run σ) := by
  unfold settingsOf
  change _ = caught (Settings.load (some o.phpRoot) (some o.jsRoot) o.overrides σ)
  simp only [tryCatch, tryCatchThe, MonadExceptOf.tryCatch, EStateM.tryCatch, EStateM.run, bind,
    EStateM.bind]
  cases Settings.load (some o.phpRoot) (some o.jsRoot) o.overrides σ with
  | ok s τ => rfl
  | error fault τ => cases fault <;> rfl

theorem run_settingsOf_eq_ok {r : Except (List Problem) Settings}
    (h : (settingsOf o).run σ = .ok r τ) :
    (∃ s, r = .ok s ∧ o.settings.run σ = .ok s τ) ∨
      ∃ problems, r = .error problems ∧
        o.settings.run σ = .error (.invalidSettings problems) τ := by
  rw [run_settingsOf] at h
  cases hs : o.settings.run σ with
  | ok s ρ =>
    rw [hs] at h
    cases h
    exact .inl ⟨s, rfl, rfl⟩
  | error fault ρ =>
    rw [hs] at h
    cases fault with
    | invalidSettings problems =>
      cases h
      exact .inr ⟨problems, rfl, rfl⟩
    | _ => cases h

/-! ### The end of a run -/

/-- A line as it is said. -/
def lineRecord (level : Level) (message : Text) : Record :=
  { level, logger := Logger.program, message }

theorem run_sayLines (level : Level) (ls : List Text) (σ : Session) :
    ∃ shown, (ls.forM (sayLine level)).run σ =
      .ok () { σ with records := σ.records ++ ls.map (lineRecord level), shown } := by
  induction ls generalizing σ with
  | nil => exact ⟨σ.shown, by simp⟩
  | cons l ls ih =>
    obtain ⟨shown, hrest⟩ := ih { σ with
      records := σ.records ++ [lineRecord level l]
      shown := σ.shown ++ σ.diagnostics.render (lineRecord level l) }
    refine ⟨shown, ?_⟩
    rw [List.map_cons, List.append_cons]
    exact hrest

/-- A run without failures ends with the lines of the statistics. -/
theorem run_finish (s : Settings) (issues : List Issue) (σ : Session) :
    ∃ shown, (finish s issues).run σ =
      .ok ⟨(Summary.ofIssues s issues).exit.code,
          (Summary.ofIssues s issues).document.elim [] (· ++ [.scalar '\n'])⟩
        { σ with
          records := σ.records ++
            (Summary.ofIssues s issues).statistics.lines.map (lineRecord .info)
          shown } := by
  obtain ⟨shown, hlines⟩ := run_sayLines .info (Summary.ofIssues s issues).statistics.lines σ
  refine ⟨shown, ?_⟩
  unfold finish
  rw [EStateM.run_bind, hlines]
  rfl

/-- What a run without failures shows of its issues: how many there are and how many of them are
critical is the same in the report, in the statistics and in the exit code. -/
structure Shows (s : Settings) (issues : List Issue) (ending : Ending) (records : List Record) :
    Prop where
  silent : ending.output = [] ↔ s.silent = true
  printed : s.silent = false → ending.output = Report.document issues ++ [.scalar '\n']
  elements : s.silent = false → ∃ elements, Json.read ending.output = .ok (.array elements) ∧
    elements.length = issues.length ∧
    elements.countP Report.isCritical = Summary.countCritical issues
  counted : s.stats = true → ∃ lines,
    lines = (Summary.statisticsOf s.last (Ranking.ofIssues issues) issues.length
      (Summary.countCritical issues)).lines ∧
    lines.getLast? = some (Summary.totalLine issues.length (Summary.countCritical issues)) ∧
    lines.map (lineRecord .info) <:+ records
  grouped : ((Ranking.ofIssues issues).map (·.count)).sum = issues.length
  code : ending.exitCode =
    if s.strict = true ∧ 0 < issues.length then 8
    else if s.strict = false ∧ 0 < Summary.countCritical issues then 7
    else 0

theorem shows_of_finish {s : Settings} {issues : List Issue} {ending : Ending}
    (hwritable : ∀ issue ∈ issues, issue.IsWritable) (h : (finish s issues).run σ = .ok ending τ) :
    Shows s issues ending τ.records := by
  obtain ⟨shown, hfinish⟩ := run_finish s issues σ
  rw [hfinish] at h
  injection h with hending hτ
  subst hτ hending
  have hprinted (hsilent : s.silent = false) :
      (Summary.ofIssues s issues).document.elim [] (· ++ [.scalar '\n']) =
        Report.document issues ++ [.scalar '\n'] := by
    simp [Summary.ofIssues, hsilent]
  refine {
    silent := ?_
    printed := hprinted
    elements := fun hsilent => ?_
    counted := fun hstats => ?_
    grouped := Ranking.sum_count issues
    code := Summary.code_exitReason s.strict issues }
  · cases hsilent : s.silent <;> simp [Summary.ofIssues, hsilent]
  · refine ⟨issues.map Issue.toJson, ?_, List.length_map .., Report.countP_isCritical issues⟩
    rw [hprinted hsilent]
    exact Report.read_document_feed hwritable
  · refine ⟨_, rfl, Summary.getLast?_statisticsOf .., σ.records, ?_⟩
    simp [Summary.ofIssues, hstats]

/-! ### Whole runs -/

section Whole

open Pipeline (takesPart Succeeds Fails issuesOf contextOf)

/-- What is known of a run for some options that has ended in a session. -/
structure EndsAs (o : Options) (σ : Session) (ending : Ending) (records : List Record) : Prop where
  invalid_iff : ending.exitCode = exitInvalidSettings ↔
    ∃ problems τ, o.settings.run σ = .error (.invalidSettings problems) τ
  invalid : ending.exitCode = exitInvalidSettings → ending.output = []
  valid : ending.exitCode ≠ exitInvalidSettings → ∃ s c active τ,
    o.settings.run σ = .ok s τ ∧ c = contextOf σ.workspace σ.directory s Tool.all none ∧
    active = Tool.all.filter (takesPart σ.workspace s) ∧
    ((∃ before first after output, active = before ++ first :: after ∧
        (∀ t ∈ before, Succeeds σ.workspace c t) ∧ Fails σ.workspace c first output ∧
        ending = ⟨first.failureCode, []⟩) ∨
      (∀ t ∈ active, Succeeds σ.workspace c t) ∧
        Shows s (active.flatMap (issuesOf σ.workspace c)) ending records)

theorem isWritable_of_issuesOf {c : Pipeline.Context} {t : Tool} {issue : Issue}
    (h : issue ∈ issuesOf w c t) : issue.IsWritable := by
  unfold issuesOf at h
  split at h
  · next issues houtcome =>
    unfold Pipeline.stageOutcome at houtcome
    dsimp only at houtcome
    split at houtcome
    · obtain ⟨r, -, hvalue⟩ := bind_eq_ok houtcome
      exact Tool.isWritable_of_outcome hvalue h
    · cases houtcome
  · cases h

/-- A run whose settings are valid ends as its first stage that fails, or shows its issues. -/
theorem ends_of_valid {s : Settings} {ending : Ending} (hσ : σ.Placed)
    (hroot : ∀ g, (s.root g).Resolved)
    (h : (do
      Action.configure s.verbosity
      match ← Pipeline.run s Tool.all none with
      | .error failure => return ⟨failure.tool.failureCode, []⟩
      | .ok issues => finish s issues : Action Ending).run σ = .ok ending τ) :
    ∃ c active, c = contextOf σ.workspace σ.directory s Tool.all none ∧
      active = Tool.all.filter (takesPart σ.workspace s) ∧
      ((∃ before first after output, active = before ++ first :: after ∧
          (∀ t ∈ before, Succeeds σ.workspace c t) ∧ Fails σ.workspace c first output ∧
          ending = ⟨first.failureCode, []⟩) ∨
        (∀ t ∈ active, Succeeds σ.workspace c t) ∧
          Shows s (active.flatMap (issuesOf σ.workspace c)) ending τ.records) := by
  obtain ⟨u, ρ, hconfigure, h⟩ := Action.run_bind_eq_ok h
  obtain ⟨result, ρ', hrun, h⟩ := Action.run_bind_eq_ok h
  obtain ⟨hworkspace, hdirectory⟩ := run_configure_eq_ok hconfigure
  have hresult := Pipeline.result_of_run (hσ.congr hworkspace hdirectory) hroot hrun
  rw [Pipeline.stages_all, hworkspace, hdirectory] at hresult
  refine ⟨_, _, rfl, rfl, ?_⟩
  rcases Pipeline.resultOf_eq_ok hresult with
    ⟨hall, -, rfl⟩ | ⟨before, first, after, output, heq, hbefore, hfirst, -, rfl⟩
  · refine .inr ⟨hall, shows_of_finish ?_ h⟩
    intro issue hissue
    obtain ⟨t, -, hmem⟩ := List.mem_flatMap.mp hissue
    exact isWritable_of_issuesOf hmem
  · refine .inl ⟨before, first, after, output, heq, hbefore, hfirst, ?_⟩
    rw [EStateM.run_pure] at h
    injection h with hending _
    exact hending.symm

theorem endsAs_of_run {ending : Ending} (hσ : σ.Placed) (h : (runWith o).run σ = .ok ending τ) :
    EndsAs o σ ending τ.records := by
  obtain ⟨u, ρ, hconfigure, h⟩ := Action.run_bind_eq_ok h
  obtain ⟨r, ρ', hsettings, h⟩ := Action.run_bind_eq_ok h
  obtain ⟨hworkspace, hdirectory⟩ := run_configure_eq_ok hconfigure
  have hquiet : Quiet σ.workspace σ.directory o.settings := (Settings.hasEffect_load _ _ _).quiet
  obtain ⟨hvalid, hinvalid⟩ := hquiet.run_alike hworkspace hdirectory
  rcases run_settingsOf_eq_ok hsettings with ⟨s, rfl, hs⟩ | ⟨problems, rfl, hproblems⟩
  · obtain ⟨⟨σ', hload⟩, hworkspace', hdirectory'⟩ := hvalid s ρ' hs
    obtain ⟨c, active, hc, hactive, hends⟩ := ends_of_valid (hσ.congr hworkspace' hdirectory')
      (Settings.resolved_roots hσ.resolved hload) h
    rw [hworkspace', hdirectory'] at hc
    rw [hworkspace'] at hactive hends
    have hcode : ending.exitCode ≠ exitInvalidSettings := by
      rcases hends with ⟨_, first, _, _, -, -, -, rfl⟩ | ⟨-, hshows⟩
      · cases first <;> decide
      · rw [hshows.code]
        split
        · decide
        · split <;> decide
    refine ⟨⟨fun heq => absurd heq hcode, ?_⟩, fun heq => absurd heq hcode, fun _ => ?_⟩
    · rintro ⟨problems, τ', hfault⟩
      rw [hload] at hfault
      cases hfault
    · exact ⟨s, c, active, σ', hload, hc, hactive, hends⟩
  · obtain ⟨u', ρ'', -, h⟩ := Action.run_bind_eq_ok h
    rw [EStateM.run_pure] at h
    injection h with hending _
    subst hending
    obtain ⟨σ', hfault⟩ := hinvalid _ _ hproblems
    exact ⟨⟨fun _ => ⟨problems, σ', hfault⟩, fun _ => rfl⟩, fun _ => rfl, fun h => absurd rfl h⟩

/-- The exit code, the report and the statistics of a run agree. Only a run that neither was given
invalid settings nor met a tool that failed has printed a report. -/
theorem run_agrees {arguments : List Text} {ending : Ending} (hσ : σ.Placed)
    (hhelp : request arguments ≠ .help) (hversion : request arguments ≠ .version)
    (h : (run arguments).run σ = .ok ending τ) :
    (∃ e, request arguments = .reject e ∧ ending = ⟨exitUsage, []⟩) ∨
      ∃ o, request arguments = .run o ∧ EndsAs o σ ending τ.records := by
  unfold run at h
  cases hrequest : request arguments with
  | help => exact absurd hrequest hhelp
  | version => exact absurd hrequest hversion
  | reject e =>
    rw [hrequest] at h
    obtain ⟨u, ρ, -, h⟩ := Action.run_bind_eq_ok h
    rw [EStateM.run_pure] at h
    injection h with hending _
    exact .inl ⟨e, rfl, hending.symm⟩
  | run o =>
    rw [hrequest] at h
    exact .inr ⟨o, rfl, endsAs_of_run hσ h⟩

/-- How a run ended, unless it ended in a fault. -/
def ending? : EStateM.Result Fault Session Ending → Option Ending
  | .ok ending _ => some ending
  | .error _ _ => none

theorem eq_of_ending? {r : EStateM.Result Fault Session Ending} {ending : Ending}
    (h : ending? r = some ending) : ∃ τ, r = .ok ending τ := by
  cases r with
  | ok ending τ =>
    cases h
    exact ⟨τ, rfl⟩
  | error fault τ => cases h

/-- Three tools that run to the end. The first one cannot parse a source. -/
def parseErrorScriptSession : Session :=
  Pipeline.scriptSession
    { output := (Text.ofString "[\x7b\"type\":\"ParseError\"\x7d]").flatMap CodePoint.utf8 }
    Pipeline.findsNothing Pipeline.findsNothing

/-- A run whose second stage fails ends with the exit code of that tool and without a report. A run
that goes to the end shows its issues, of which one is critical here. -/
theorem run_agrees_scriptSessions :
    (∃ o τ, (run []).run (Pipeline.brokenScriptSession Pipeline.findsNothing) = .ok ⟨5, []⟩ τ ∧
      EndsAs o (Pipeline.brokenScriptSession Pipeline.findsNothing) ⟨5, []⟩ τ.records) ∧
    ∃ o output τ, (run []).run parseErrorScriptSession = .ok ⟨7, output⟩ τ ∧
      EndsAs o parseErrorScriptSession ⟨7, output⟩ τ.records := by
  have hhelp : request [] ≠ .help := fun h => by cases h
  have hversion : request [] ≠ .version := fun h => by cases h
  constructor
  · have hplaced : (Pipeline.brokenScriptSession Pipeline.findsNothing).Placed :=
      ⟨Snapshot.resolved_home, by decide⟩
    have hending : ending? ((run []).run (Pipeline.brokenScriptSession Pipeline.findsNothing)) =
        some ⟨5, []⟩ := by decide +kernel
    obtain ⟨τ, hrun⟩ := eq_of_ending? hending
    rcases run_agrees hplaced hhelp hversion hrun with ⟨e, he, -⟩ | ⟨o, -, hends⟩
    · cases he
    · exact ⟨o, τ, hrun, hends⟩
  · have hplaced : parseErrorScriptSession.Placed := ⟨Snapshot.resolved_home, by decide⟩
    have hcode : (ending? ((run []).run parseErrorScriptSession)).map (·.exitCode) = some 7 := by
      decide +kernel
    obtain ⟨⟨code, output⟩, hending, rfl⟩ := Option.map_eq_some_iff.mp hcode
    obtain ⟨τ, hrun⟩ := eq_of_ending? hending
    rcases run_agrees hplaced hhelp hversion hrun with ⟨e, he, -⟩ | ⟨o, -, hends⟩
    · cases he
    · exact ⟨o, output, τ, hrun, hends⟩

end Whole

end CommandLine

end LintReport
