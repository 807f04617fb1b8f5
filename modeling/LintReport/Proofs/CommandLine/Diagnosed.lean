import LintReport.Proofs.CommandLine.Run
import LintReport.Proofs.CommandLine.Verbosity
import LintReport.Proofs.Pipeline.Alike
import LintReport.Proofs.Settings.Diagnosed

/-!
Diagnostics and the result of a run. The verbosity, the layout of the diagnostics and what the
statistics show have no part in the report, in the commands, in the directory and in the exit code.
But the settings that say so are the text of a file, and a tool may report a place in that file: the
report then gives the lines of the place in that text.
-/
namespace LintReport

open LintReport.Action (Agree HasEffect RunAlike SameEnd agree_pure agree_say)

variable {w w' : Workspace} {d file : Path} {σ σ' : Session}

/-! ### Setting up diagnostics -/

namespace Diagnostics

/-- Whether diagnostics can be set up is decided by the environment alone. -/
theorem configure_alike {environment environment' : Table Text} (verbosity verbosity' : Int)
    (h : Table.get? "LOG_LEVEL" environment = Table.get? "LOG_LEVEL" environment') :
    SameEnd (fun _ _ => True) (configure environment verbosity)
      (configure environment' verbosity') := by
  unfold configure threshold?
  rw [h]
  dsimp only
  split
  · exact .error _
  · split
    · exact .error _
    · split <;> exact .ok trivial

end Diagnostics

namespace Action

theorem keeps_configure (verbosity : Int) : Keeps Session.place (configure verbosity) := by
  intro σ
  rw [Action.after, run_configure]
  cases Diagnostics.configure σ.workspace.environment verbosity <;> rfl

/-- Diagnostics are set up, or not, whatever the verbosity is. -/
theorem agree_configure (verbosity verbosity' : Int)
    (h : Table.get? "LOG_LEVEL" w.environment = Table.get? "LOG_LEVEL" w'.environment) :
    Agree w w' Eq (configure verbosity) (configure verbosity') := by
  refine agree_get_bind fun σ σ' hσ => ?_
  obtain ⟨rfl, rfl, hdirectory, hcalls⟩ := hσ
  have hends := Diagnostics.configure_alike verbosity verbosity' h
  exact (agree_ofExcept hends ⟨rfl, rfl, hdirectory, hcalls⟩).bind fun _ _ _ =>
    ⟨.ok rfl, rfl, rfl, hdirectory, hcalls⟩

end Action

namespace Pipeline

/-- The pipeline does not ask for the settings for the diagnostics. -/
theorem run_undiagnosed (s : Settings) : run s.undiagnosed = run s := rfl

end Pipeline

namespace CommandLine

variable {o o' : Options} {s s' : Settings}

/-- The file that the settings for a root are read from. -/
def composerFile (d root : Path) : Path := Path.resolve d (root.below "composer.json")

/-- Two workspaces in which runs with some options differ in nothing but the settings for the
diagnostics, and these are accepted. They may be said in other words. -/
structure Options.DifferInDiagnostics (o o' : Options) (w w' : Workspace) (d root : Path) :
    Prop where
  files_same : w.SameBut (composerFile d root) w'
  section_same : Settings.SameAside Settings.diagnosticNames.contains
    (Settings.spelledIn w d root) (Settings.spelledIn w' d root)
  accepted : Settings.AcceptsDiagnostics (Settings.membersIn w d root o.overrides)
  accepted' : Settings.AcceptsDiagnostics (Settings.membersIn w' d root o'.overrides)

/-- Two command lines and two sessions that differ in nothing but the diagnostics: the verbosity,
the layout of a line, and what the statistics show. -/
structure DifferInDiagnostics (arguments arguments' : List Text) (σ σ' : Session) : Prop where
  request_same : (request arguments).undiagnosed = (request arguments').undiagnosed
  directory_same : σ'.directory = σ.directory
  calls_same : σ'.calls = σ.calls
  environment_same : ∀ name, name ≠ Text.ofString "LOG_FORMAT" →
    Table.get? name σ.workspace.environment = Table.get? name σ'.workspace.environment
  run_same : ∀ o o' root, request arguments = .run o → request arguments' = .run o' →
    Settings.rootFrom σ.directory (some o.phpRoot) = .ok root →
    o.DifferInDiagnostics o' σ.workspace σ'.workspace σ.directory root

/-- Where Biome reports places in the Composer file by their bytes, they are in the same lines of
the file in both workspaces. -/
def Options.SameSpans (o : Options) (w w' : Workspace) (d root : Path) : Prop :=
  ∀ s, Settings.loadIn w d (some o.phpRoot) (some o.jsRoot) o.overrides = .ok s →
    Pipeline.SameSpans w w' (composerFile d root) s (Pipeline.interpreterIn w s Tool.all)

/-! ### Settings -/

theorem hasEffect_settingsOf (o : Options) :
    HasEffect w d (settingsOf o)
      ⟨caughtResult (Settings.loadIn w d (some o.phpRoot) (some o.jsRoot) o.overrides), [], d⟩ := by
  rintro σ rfl rfl
  obtain ⟨records, shown, hrun⟩ := (Settings.hasEffect_load (some o.phpRoot) (some o.jsRoot)
    o.overrides).run_eq
  refine ⟨records, shown, ?_⟩
  rw [run_settingsOf, Options.settings, hrun]
  cases Settings.loadIn σ.workspace σ.directory (some o.phpRoot) (some o.jsRoot) o.overrides with
  | ok s => rfl
  | error fault => cases fault <;> rfl

/-- The same problems, or settings that are the same but for the diagnostics. -/
inductive SameSettings (r : Except Fault Settings) :
    Except (List Problem) Settings → Except (List Problem) Settings → Prop where
  | valid {s s' : Settings} (hload : r = .ok s) (h : s.undiagnosed = s'.undiagnosed) :
      SameSettings r (.ok s) (.ok s')
  | invalid (problems : List Problem) : SameSettings r (.error problems) (.error problems)

/-- Loading comes to the same problems or to settings that are the same but for the diagnostics. -/
theorem sameEnd_settings {r r' : Except Fault Settings}
    (h : r.map Settings.undiagnosed = r'.map Settings.undiagnosed) :
    SameEnd (SameSettings r) (caughtResult r) (caughtResult r') := by
  rcases r with fault | s <;> rcases r' with fault' | s' <;> simp only [Except.map] at h
  · rw [Except.error.injEq] at h
    subst h
    cases fault with
    | invalidSettings problems => exact .ok (.invalid problems)
    | _ => exact .error _
  · cases h
  · cases h
  · rw [Except.ok.injEq] at h
    exact .ok (.valid rfl h)

/-! ### The end of a run -/

/-- What a run does with its settings. -/
def runSettled (s : Settings) : Action Ending := do
  Action.configure s.verbosity
  match ← Pipeline.run s Tool.all none with
  | .error failure => return ⟨failure.tool.failureCode, []⟩
  | .ok issues => finish s issues

theorem runWith_eq (o : Options) : runWith o = (do
    Action.configure (o.verbosity.elim 1 fun n => n)
    match ← settingsOf o with
    | .error problems =>
      sayLine .error ("Invalid configuration: " ++ Problem.list problems)
      return ⟨exitInvalidSettings, []⟩
    | .ok s => runSettled s) := rfl

theorem hasEffect_finish (s : Settings) (issues : List Issue) :
    HasEffect w d (finish s issues)
      ⟨.ok ⟨(Summary.exitReason s.strict issues).code,
        if s.silent then [] else Report.document issues ++ [.scalar '\n']⟩, [], d⟩ := by
  rintro σ - rfl
  obtain ⟨shown, hfinish⟩ := run_finish s issues σ
  have hprinted : (Summary.ofIssues s issues).document.elim [] (· ++ [.scalar '\n']) =
      if s.silent then [] else Report.document issues ++ [.scalar '\n'] := by
    cases hsilent : s.silent <;> simp [Summary.ofIssues, hsilent]
  rw [hprinted] at hfinish
  exact ⟨_, shown, by rw [hfinish, Action.Effect.ending, List.append_nil]; rfl⟩

/-- With settings that are the same but for the diagnostics, runs come to the same end. -/
theorem agree_runSettled (h : w.SameBut file w')
    (hlevel : Table.get? "LOG_LEVEL" w.environment = Table.get? "LOG_LEVEL" w'.environment)
    (hroot : (s.root .js).Resolved)
    (hspans : Pipeline.SameSpans w w' file s (Pipeline.interpreterIn w s Tool.all))
    (hsame : s.undiagnosed = s'.undiagnosed) :
    Agree w w' Eq (runSettled s) (runSettled s') := by
  have hrun : Pipeline.run s' = Pipeline.run s := by
    rw [← Pipeline.run_undiagnosed s', ← hsame, Pipeline.run_undiagnosed]
  have hstrict : s'.strict = s.strict := (congrArg Settings.strict hsame).symm
  have hsilent : s'.silent = s.silent := (congrArg Settings.silent hsame).symm
  refine (Action.agree_configure _ _ hlevel).bind_eq fun _ => ?_
  rw [hrun]
  refine (Pipeline.agree_run h hroot hspans none).bind_eq fun result => ?_
  cases result with
  | error failure => exact agree_pure rfl
  | ok issues =>
    intro σ σ' hσ
    refine .of_hasEffect hσ (hasEffect_finish s issues) (hasEffect_finish s' issues) (.of_eq ?_)
    rw [hstrict, hsilent]

/-! ### Runs -/

section Runs

variable (hσ : Session.Alike w w' σ σ') (hresolved : σ.directory.Resolved)
  (henvironment : ∀ name, name ≠ Text.ofString "LOG_FORMAT" →
    Table.get? name w.environment = Table.get? name w'.environment)
  (hoptions : o.undiagnosed = o'.undiagnosed)
include hσ henvironment hoptions

theorem settingsOf_alike
    (h : ∀ root, Settings.rootFrom σ.directory (some o.phpRoot) = .ok root →
      o.DifferInDiagnostics o' w w' σ.directory root) :
    RunAlike w w' (SameSettings
        (Settings.loadIn w σ.directory (some o.phpRoot) (some o.jsRoot) o.overrides))
      (settingsOf o) (settingsOf o') σ σ' := by
  have hphp : o'.phpRoot = o.phpRoot := (congrArg Options.phpRoot hoptions).symm
  have hjs : o'.jsRoot = o.jsRoot := (congrArg Options.jsRoot hoptions).symm
  have hload := @Settings.loadIn_undiagnosed w w' σ.directory (some o.phpRoot) (some o.jsRoot)
    o.overrides o'.overrides fun root hroot =>
      { section_same := (h root hroot).section_same
        limit_same := henvironment "CODE_QUALITY_TIMEOUT" (by decide)
        overrides_same := overrides_undiagnosed hoptions
        accepted := (h root hroot).accepted
        accepted' := (h root hroot).accepted' }
  refine .of_hasEffect hσ (hasEffect_settingsOf o) (hasEffect_settingsOf o') ?_
  rw [hphp, hjs]
  exact sameEnd_settings hload

include hresolved in
/-- Runs with options that differ in nothing but the diagnostics come to the same end. -/
theorem runWith_alike
    (h : ∀ root, Settings.rootFrom σ.directory (some o.phpRoot) = .ok root →
      o.DifferInDiagnostics o' w w' σ.directory root)
    (hspans : ∀ root, Settings.rootFrom σ.directory (some o.phpRoot) = .ok root →
      o.SameSpans w w' σ.directory root) :
    RunAlike w w' Eq (runWith o) (runWith o') σ σ' := by
  have hlevel := henvironment "LOG_LEVEL" (by decide)
  have hconfigure := Action.agree_configure (o.verbosity.elim 1 fun n => n)
    (o'.verbosity.elim 1 fun n => n) hlevel hσ
  have hdirectory : ((Action.configure (o.verbosity.elim 1 fun n => n)).after σ).directory =
      σ.directory := congrArg Prod.snd (Action.keeps_configure _ σ)
  rw [← hdirectory] at h hspans hresolved
  have hsettings := settingsOf_alike hconfigure.after henvironment hoptions h
  rw [runWith_eq, runWith_eq]
  refine hconfigure.bind fun _ _ _ => hsettings.bind fun r r' hr => ?_
  cases hr with
  | invalid problems =>
    exact (agree_say _ _).bind_eq (fun _ => agree_pure rfl) hsettings.after
  | @valid s s' hload hsame =>
    obtain ⟨hphp, hjs⟩ := Settings.roots_of_loadIn hload
    have hjsRoot : (s.root .js).Resolved := Settings.resolved_rootFrom hresolved hjs
    exact agree_runSettled (h _ hphp).files_same hlevel hjsRoot (hspans _ hphp s hload) hsame
      hsettings.after

end Runs

theorem showText_alike (text text' : Text) (hσ : Session.Alike w w' σ σ') :
    RunAlike w w' Eq (showText text) (showText text') σ σ' :=
  ⟨.ok rfl, hσ.left, hσ.right, hσ.directory, hσ.calls⟩

/-- Diagnostics never influence the result: where command lines and sessions differ in nothing else,
runs print the same report and end with the same exit code, or they end in the same fault, and they
run the same commands and end up in the same directory. But a report gives the lines of places in
files, and the file that the settings are read from may be one of these. -/
theorem run_eq_of_differInDiagnostics {arguments arguments' : List Text}
    (hresolved : σ.directory.Resolved) (h : DifferInDiagnostics arguments arguments' σ σ')
    (hspans : ∀ o root, request arguments = .run o →
      Settings.rootFrom σ.directory (some o.phpRoot) = .ok root →
      o.SameSpans σ.workspace σ'.workspace σ.directory root) :
    (run arguments').given σ' = (run arguments).given σ ∧
      ((run arguments').after σ').calls = ((run arguments).after σ).calls ∧
      ((run arguments').after σ').directory = ((run arguments).after σ).directory := by
  have hσ : Session.Alike σ.workspace σ'.workspace σ σ' :=
    ⟨rfl, rfl, h.directory_same, h.calls_same⟩
  have halike : RunAlike σ.workspace σ'.workspace Eq (run arguments) (run arguments') σ σ' := by
    unfold run
    rcases Request.undiagnosed_cases h.request_same with
      ⟨o, o', ho, ho', hoptions⟩ | ⟨hsame, hnot⟩
    · rw [ho, ho']
      exact runWith_alike hσ hresolved h.environment_same hoptions
        (fun root hroot => h.run_same o o' root ho ho' hroot) fun root => hspans o root ho
    · rw [hsame]
      cases hrequest : request arguments with
      | run o => exact absurd hrequest (hnot o)
      | help => exact agree_pure rfl hσ
      | version => exact agree_pure rfl hσ
      | reject e =>
        exact (showText_alike _ _ hσ).bind fun _ _ _ =>
          agree_pure rfl (showText_alike _ _ hσ).after
  exact ⟨halike.given.eq.symm, halike.after.calls, halike.after.directory⟩

/-! ### A project that asks for a verbosity -/

/-- What Biome says of the name of a setting in a Composer file. -/
def composerRemark : Text :=
  Text.ofString ("\x7b\"diagnostics\":[\x7b\"location\":\x7b" ++
    "\"path\":\x7b\"file\":\"composer.json\"\x7d,\"span\":[49,65]\x7d\x7d]\x7d")

/-- A session in a project whose Composer file asks for a verbosity, and in which Biome says
something of that file. -/
def verboseSession (verbosity : String) (environment : Table Text) : Session where
  workspace := Workspace.write {
      files := [(⟨.slash, ["project", "node_modules", "@biomejs", "biome", "bin", "biome"]⟩, [])]
      tools := [("biome", { output := composerRemark.flatMap CodePoint.utf8 })]
      versions := [("bun", { output := [0x31, 0x2E, 0x31] })]
      environment } ⟨.slash, ["project", "composer.json"]⟩
    ((Text.ofString ("\x7b\"extra\":\x7b\"gitlab-code-quality\":\x7b\n" ++
      "\"verbosity\":" ++ verbosity ++ ",\n" ++
      "\"biome-reporter\":\"json\"\x7d\x7d\x7d")).flatMap CodePoint.utf8)
  directory := Snapshot.home

/-- What the Composer file says beside the settings for the diagnostics. -/
def besideDiagnostics (σ : Session) : Table Json :=
  (Settings.spelledIn σ.workspace σ.directory σ.directory).filter fun m =>
    !Settings.diagnosticNames.contains (Settings.normalName m.1)

/-- Does a table ask for documents, and for nothing else? -/
def asksForDocuments : Table Json → Bool
  | [(name, .string s)] => name = Text.ofString "biome-reporter" && s = Text.ofString "json"
  | _ => false

theorem eq_of_asksForDocuments {members : Table Json} (h : asksForDocuments members = true) :
    members = [(Text.ofString "biome-reporter", .string "json")] := by
  unfold asksForDocuments at h
  split at h
  · simp only [Bool.and_eq_true, decide_eq_true_eq] at h
    rw [h.1, h.2]
  · cases h

/-- Projects that ask for different verbosities differ in the diagnostics only. -/
theorem differInDiagnostics_verboseSession {arguments arguments' : List Text} {o o' : Options}
    {verbosity verbosity' : String} {environment environment' : Table Text}
    (hrequest : request arguments = .run o) (hrequest' : request arguments' = .run o')
    (hsame : (request arguments).undiagnosed = (request arguments').undiagnosed)
    (hroot : o.phpRoot = [])
    (henvironment : ∀ name, name ≠ Text.ofString "LOG_FORMAT" →
      Table.get? name environment = Table.get? name environment')
    (hbeside : asksForDocuments (besideDiagnostics (verboseSession verbosity environment)) = true)
    (hbeside' :
      asksForDocuments (besideDiagnostics (verboseSession verbosity' environment')) = true)
    (haccepted : Settings.AcceptsDiagnostics (Settings.membersIn
      (verboseSession verbosity environment).workspace Snapshot.home Snapshot.home o.overrides))
    (haccepted' : Settings.AcceptsDiagnostics (Settings.membersIn
      (verboseSession verbosity' environment').workspace Snapshot.home Snapshot.home
      o'.overrides)) :
    DifferInDiagnostics arguments arguments' (verboseSession verbosity environment)
      (verboseSession verbosity' environment') where
  request_same := hsame
  directory_same := rfl
  calls_same := rfl
  environment_same := henvironment
  run_same := by
    intro q q' root hq hq' hrootFrom
    cases hrequest.symm.trans hq
    cases hrequest'.symm.trans hq'
    rw [hroot] at hrootFrom
    cases hrootFrom
    exact {
      files_same := Workspace.sameBut_write _ _ _ _ _
      section_same :=
        (eq_of_asksForDocuments hbeside).trans (eq_of_asksForDocuments hbeside').symm
      accepted := haccepted
      accepted' := haccepted' }

/-- Are these the settings of a run in which Biome says in the project what it says? -/
def remarksIn (w : Workspace) (s : Settings) : Bool :=
  s.jsRoot = Snapshot.home &&
    (Command.resultIn w (Tool.biome.command s (Pipeline.interpreterIn w s Tool.all))
      s.limit).toOption.map (·.output) = some composerRemark

/-- What Biome says is about one span. -/
theorem span_of_composerRemark :
    (Biome.decode composerRemark).items.all (·.span = some (49, 65)) = true := by
  decide +kernel

theorem sameSpans_verboseSession {o : Options} {verbosity verbosity' : String}
    {environment environment' : Table Text} (hroot : o.phpRoot = [])
    (hloaded : (Settings.loadIn (verboseSession verbosity environment).workspace Snapshot.home
      (some o.phpRoot) (some o.jsRoot) o.overrides).toOption.all
        (remarksIn (verboseSession verbosity environment).workspace) = true)
    (hlines : ((verboseSession verbosity environment).workspace.file?
        (composerFile Snapshot.home Snapshot.home)).map (Output.spanLines · (some 49) (some 65)) =
      ((verboseSession verbosity' environment').workspace.file?
        (composerFile Snapshot.home Snapshot.home)).map (Output.spanLines · (some 49) (some 65)))
    {root : Path} (hrootFrom : Settings.rootFrom Snapshot.home (some o.phpRoot) = .ok root) :
    o.SameSpans (verboseSession verbosity environment).workspace
      (verboseSession verbosity' environment').workspace Snapshot.home root := by
  rw [hroot] at hrootFrom
  cases hrootFrom
  intro s hs _ _ r hr start stop hspan
  rw [hs] at hloaded
  change remarksIn (verboseSession verbosity environment).workspace s = true at hloaded
  rw [remarksIn, Bool.and_eq_true, decide_eq_true_eq, decide_eq_true_eq, hr] at hloaded
  have houtput : r.output = composerRemark := Option.some.inj hloaded.2
  obtain ⟨diagnostic, hmem, hat, -⟩ := hspan
  rw [houtput] at hmem
  have hends := of_decide_eq_true (List.all_eq_true.mp span_of_composerRemark diagnostic hmem)
  cases hat.symm.trans hends
  exact hlines

theorem asksForDocuments_one :
    asksForDocuments (besideDiagnostics (verboseSession "1" [])) = true := by
  decide +kernel

theorem acceptsDiagnostics_one : Settings.AcceptsDiagnostics (Settings.membersIn
    (verboseSession "1" []).workspace Snapshot.home Snapshot.home ({} : Options).overrides) := by
  decide +kernel

/-- The exit code of a run without arguments, and the first line number in its report. -/
def reportedLine (σ : Session) : Option (Nat × Option Text) :=
  ((run []).given σ).toOption.map fun ending =>
    (ending.exitCode, (Text.cut? "\"line\": " ending.output).map (·.2.take 1))

theorem reportedLine_one :
    reportedLine (verboseSession "1" []) = some (0, some (Text.ofString "3")) := by
  decide +kernel

/-- A run that shows everything, in the layout of a program, and a run that shows little. -/
theorem run_eq_verboseSession :
    DifferInDiagnostics [] ["-vv"] (verboseSession "1" [])
        (verboseSession "4" [("LOG_FORMAT", "json")]) ∧
      (run ["-vv"]).given (verboseSession "4" [("LOG_FORMAT", "json")]) =
        (run []).given (verboseSession "1" []) ∧
      ((run ["-vv"]).after (verboseSession "4" [("LOG_FORMAT", "json")])).calls =
        ((run []).after (verboseSession "1" [])).calls ∧
      reportedLine (verboseSession "1" []) = some (0, some (Text.ofString "3")) := by
  have hresolved : (verboseSession "1" []).directory.Resolved := Snapshot.resolved_home
  have hquiet : request [] = .run {} := rfl
  have hverbose : request ["-vv"] = .run { verbosity := some 2 } := rfl
  have hdiffer : DifferInDiagnostics [] ["-vv"] (verboseSession "1" [])
      (verboseSession "4" [("LOG_FORMAT", "json")]) := by
    refine differInDiagnostics_verboseSession hquiet hverbose (request_verbosity rfl []).symm rfl
      ?_ asksForDocuments_one (by decide +kernel) acceptsDiagnostics_one (by decide +kernel)
    intro name hname
    rw [Table.get?, Table.get?, if_neg (Ne.symm hname)]
    rfl
  obtain ⟨hgiven, hcalls, -⟩ := run_eq_of_differInDiagnostics hresolved hdiffer
    fun o root ho hroot => by
      cases hquiet.symm.trans ho
      exact sameSpans_verboseSession rfl (by decide +kernel) (by decide +kernel) hroot
  exact ⟨hdiffer, hgiven, hcalls, reportedLine_one⟩

/-- Two runs whose verbosities are not of the same length, so that the place that Biome reports is
in other lines. -/
theorem run_ne_verboseSession :
    DifferInDiagnostics [] [] (verboseSession "1" []) (verboseSession "10" []) ∧
      (run []).given (verboseSession "10" []) ≠ (run []).given (verboseSession "1" []) := by
  constructor
  · have hquiet : request [] = .run {} := rfl
    exact differInDiagnostics_verboseSession hquiet hquiet rfl rfl (fun _ _ => rfl)
      asksForDocuments_one (by decide +kernel) acceptsDiagnostics_one (by decide +kernel)
  · intro heq
    have hten : reportedLine (verboseSession "10" []) = some (0, some (Text.ofString "2")) := by
      decide +kernel
    rw [reportedLine, heq, ← reportedLine, reportedLine_one] at hten
    exact absurd hten (by decide)

end CommandLine

end LintReport
