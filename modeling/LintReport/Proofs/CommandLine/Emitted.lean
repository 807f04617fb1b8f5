import LintReport.Proofs.CommandLine.Run
import LintReport.Proofs.Pipeline.Lasting
import LintReport.Proofs.Session.Said

/-!
The lines that a run shows. Where the diagnostics are JSON, what a run shows beside the report
splits into one line of ASCII for each record that passes the threshold: that of the command line
while the settings are read, and that of the settings from then on. Every record is read back from
its line, whatever the tools printed.
-/
namespace LintReport

open LintReport.Action (Holds holds_get_bind)
open Session (SaidMore durable_saidMore lasting_saidMore)

/-! ### Settings -/

namespace Settings

theorem saidMore_readComposerFile (directory : Path) :
    Holds SaidMore (readComposerFile directory) := by
  refine holds_get_bind fun σ => ?_
  split
  · exact lasting_saidMore.holds_pure _
  · refine lasting_saidMore.holds_bind (durable_saidMore.holds_say _ rfl) fun _ => ?_
    split
    · exact lasting_saidMore.holds_pure _
    · exact lasting_saidMore.holds_bind (durable_saidMore.holds_say _ rfl) fun _ =>
        lasting_saidMore.holds_pure _

theorem saidMore_load (phpRoot jsRoot : Option Text) (overrides : Table Json) :
    Holds SaidMore (load phpRoot jsRoot overrides) := by
  refine holds_get_bind fun σ => ?_
  refine lasting_saidMore.holds_bind (lasting_saidMore.holds_ofExcept _) fun php => ?_
  refine lasting_saidMore.holds_bind (lasting_saidMore.holds_ofExcept _) fun js => ?_
  refine lasting_saidMore.holds_bind (saidMore_readComposerFile php) fun members => ?_
  exact holds_get_bind fun _ => lasting_saidMore.holds_ofExcept _

end Settings

namespace CommandLine

theorem saidMore_settingsOf (o : Options) : Holds SaidMore (settingsOf o) := by
  intro σ
  have hafter : (settingsOf o).after σ = o.settings.after σ := by
    rw [Action.after, run_settingsOf, Action.after]
    cases o.settings.run σ with
    | ok s τ => rfl
    | error fault τ => cases fault <;> rfl
  rw [hafter]
  exact Settings.saidMore_load (some o.phpRoot) (some o.jsRoot) o.overrides σ

theorem saidMore_finish (s : Settings) (issues : List Issue) : Holds SaidMore (finish s issues) :=
  lasting_saidMore.holds_bind
    (lasting_saidMore.holds_forM (fun _ => durable_saidMore.holds_say _ rfl) _) fun _ =>
    lasting_saidMore.holds_pure _

/-! ### Whole runs -/

/-- A run has shown records under two thresholds, one after the other, and said nothing else. -/
structure Emits (o : Options) (σ τ : Session) (before after : List Record) (d d' : Diagnostics) :
    Prop where
  configured : Diagnostics.configure σ.workspace.environment (o.verbosity.elim 1 fun n => n) = .ok d
  reconfigured : (∃ s ρ, o.settings.run { σ with diagnostics := d } = .ok s ρ ∧
      Diagnostics.configure σ.workspace.environment s.verbosity = .ok d') ∨
    (∃ problems ρ, o.settings.run { σ with diagnostics := d } =
      .error (.invalidSettings problems) ρ) ∧ after = [] ∧ d' = d
  records_eq : τ.records = σ.records ++ before ++ after
  shown_eq : τ.shown = σ.shown ++ before.flatMap d.render ++ after.flatMap d'.render
  plain : ∀ r ∈ before ++ after, r.error = none

variable {o : Options} {σ τ : Session}

theorem configure_of_run {verbosity : Int} (h : (Action.configure verbosity).run σ = .ok () τ) :
    ∃ d, Diagnostics.configure σ.workspace.environment verbosity = .ok d ∧
      τ = { σ with diagnostics := d } := by
  rw [Action.run_configure] at h
  split at h
  · next d hd =>
    injection h with _ hτ
    exact ⟨d, hd, hτ.symm⟩
  · cases h

theorem json_of_configure {environment : Table Text} {verbosity : Int} {d : Diagnostics}
    (h : Diagnostics.configure environment verbosity = .ok d)
    (hformat : Text.lower ((Table.get? "LOG_FORMAT" environment).getD []) = "json") :
    d.json = true := by
  obtain ⟨threshold, -, h⟩ := bind_eq_ok h
  cases h
  exact decide_eq_true hformat

theorem emits_of_run {ending : Ending} (h : (runWith o).run σ = .ok ending τ) :
    ∃ before after d d', Emits o σ τ before after d d' := by
  obtain ⟨u, σ', hconfigure, h⟩ := Action.run_bind_eq_ok h
  obtain ⟨r, ρ, hsettings, h⟩ := Action.run_bind_eq_ok h
  obtain ⟨d, hd, rfl⟩ := configure_of_run hconfigure
  obtain ⟨before, hbefore⟩ := (saidMore_settingsOf o).of_run hsettings
  rcases run_settingsOf_eq_ok hsettings with ⟨s, rfl, hs⟩ | ⟨problems, rfl, hproblems⟩
  · obtain ⟨u, ρ', hconfigure, h⟩ := Action.run_bind_eq_ok h
    obtain ⟨result, ρ'', hrun, h⟩ := Action.run_bind_eq_ok h
    obtain ⟨d', hd', rfl⟩ := configure_of_run hconfigure
    rw [hbefore.workspace_eq] at hd'
    have hstages : Session.SaidMore _ ρ'' := (Pipeline.holds_run durable_saidMore
      Session.saidMore_changeDirectory s Tool.all none).of_run hrun
    have hfinish : ρ''.SaidMore τ := by
      cases result with
      | error failure => exact (lasting_saidMore.holds_pure _).of_run h
      | ok issues => exact (saidMore_finish s issues).of_run h
    obtain ⟨after, hafter⟩ := lasting_saidMore.trans hstages hfinish
    refine ⟨before, after, d, d', hd, .inl ⟨s, ρ, hs, hd'⟩, ?_, ?_,
      List.forall_mem_append.mpr ⟨hbefore.plain, hafter.plain⟩⟩
    · rw [hafter.records_eq, hbefore.records_eq]
    · rw [hafter.shown_eq, hbefore.shown_eq]
  · obtain ⟨u, ρ', hline, h⟩ := Action.run_bind_eq_ok h
    obtain ⟨said, hsaid⟩ := (durable_saidMore.holds_say _ rfl).of_run hline
    rw [EStateM.run_pure] at h
    cases h
    have htells := hbefore.trans hsaid
    refine ⟨before ++ said, [], d, d, hd, .inr ⟨⟨problems, ρ, hproblems⟩, rfl, rfl⟩, ?_, ?_, ?_⟩
    · rw [htells.records_eq, List.append_nil]
    · rw [htells.shown_eq, List.flatMap_nil, List.append_nil]
    · rw [List.append_nil]
      exact htells.plain

/-- A record that is shown as JSON is a single line of ASCII with nothing in it that ends a line, and
it is read back with its time, its level, its logger, its message and, if it has one, its stage, and
with nothing else. What a run shows that gives a result is one such line for each record that passed
the threshold, in the order in which they were said. -/
theorem lines_of_run :
    (∀ (d : Diagnostics) (r : Record), d.json = true → d.shows r.level = true → r.error = none →
      (∀ c ∈ r.message, c.isSurrogate = false) → (∀ t ∈ r.stage, ∀ c ∈ t, c.isSurrogate = false) →
      d.render r = r.line ++ [.scalar '\n'] ∧ Json.IsGraphic r.line ∧
        (d.render r).lines = [r.line] ∧
        Json.read r.line = .ok (.ofTexts
          (("ts", r.time.paired) :: ("level", r.level.name) :: ("logger", r.logger.paired) ::
            ("msg", r.message) :: Record.named "stage" r.stage))) ∧
    ∀ (arguments : List Text) (o : Options) (σ τ : Session) (ending : Ending),
      request arguments = .run o →
      Text.lower ((Table.get? "LOG_FORMAT" σ.workspace.environment).getD []) = "json" →
      (run arguments).run σ = .ok ending τ →
      ∃ before after d d' printed, Emits o σ τ before after d d' ∧ τ.shown = σ.shown ++ printed ∧
        printed.lines =
          (before.filter (d.shows ·.level) ++ after.filter (d'.shows ·.level)).map Record.line ∧
        ∀ r ∈ before ++ after, Json.IsGraphic r.line ∧ Text.IsLine r.line ∧
          Json.read r.line = .ok (.ofTexts (Json.pairedTexts r.texts)) := by
  constructor
  · intro d r hd hshows herror hmessage hstage
    have hrender := Diagnostics.render_json hd hshows
    refine ⟨hrender, r.isGraphic_line, ?_, ?_⟩
    · rw [hrender]
      exact Text.lines_append_line r.isGraphic_line.isLine []
    · rw [r.read_line, Record.texts_paired herror hmessage hstage]
  · intro arguments o σ τ ending hrequest hformat hrun
    unfold run at hrun
    rw [hrequest] at hrun
    obtain ⟨before, after, d, d', hemits⟩ := emits_of_run hrun
    have hd := json_of_configure hemits.configured hformat
    have hd' : d'.json = true := by
      rcases hemits.reconfigured with ⟨s, ρ, -, hd'⟩ | ⟨-, -, rfl⟩
      · exact json_of_configure hd' hformat
      · exact hd
    have hline (r : Record) : Text.IsLine r.line := r.isGraphic_line.isLine
    refine ⟨before, after, d, d', before.flatMap d.render ++ after.flatMap d'.render, hemits,
      by rw [hemits.shown_eq, List.append_assoc], ?_,
      fun r _ => ⟨r.isGraphic_line, hline r, r.read_line⟩⟩
    have hlines : ∀ l ∈ (before.filter (d.shows ·.level) ++
        after.filter (d'.shows ·.level)).map Record.line, Text.IsLine l := by
      intro l hl
      obtain ⟨r, -, rfl⟩ := List.mem_map.mp hl
      exact hline r
    have hsplit := Text.lines_append_lines hlines []
    rw [List.append_nil, Text.lines, List.append_nil, List.map_append, List.flatMap_append,
      ← Diagnostics.flatMap_render hd, ← Diagnostics.flatMap_render hd'] at hsplit
    rw [hsplit, List.map_append]

/-- Two lines with quotes and a character that is a surrogate pair. -/
def crash : Text := Text.ofString "\"oops\"\n" ++ [.ofNat 0x1F600]

/-- A session with a tool that ends in a crash, whose diagnostics are JSON. -/
def crashedSession : Session where
  workspace := { files := [(⟨.slash, ["project", "vendor", "bin", "psalm"]⟩, [])]
                 environment := [("LOG_FORMAT", "JSON")]
                 tools := [("psalm", { exitCode := 2, output := crash.flatMap CodePoint.utf8 })] }
  directory := Snapshot.home

/-- The crash as it is said. -/
def crashRecord : Record :=
  { level := .error, logger := Logger.pipeline, message := crash, stage := some "psalm" }

/-- The crash has two lines and is shown on one. -/
theorem lines_of_run_crashedSession :
    (crash.lines.length = 2 ∧ Json.IsGraphic crashRecord.line ∧
      Json.read crashRecord.line = .ok (.ofTexts
        (("ts", crashRecord.time) :: ("level", "ERROR") :: ("logger", Logger.pipeline) ::
          ("msg", crash) :: Record.named "stage" (some "psalm")))) ∧
    ∃ o τ before after d d', request [] = .run o ∧
      (run []).run crashedSession = .ok ⟨1, []⟩ τ ∧ Emits o crashedSession τ before after d d' ∧
      τ.shown.lines =
        (before.filter (d.shows ·.level) ++ after.filter (d'.shows ·.level)).map Record.line ∧
      τ.shown.lines.length = 3 := by
  obtain ⟨hrecord, hruns⟩ := lines_of_run
  constructor
  · have hmessage : ∀ c ∈ crashRecord.message, c.isSurrogate = false := by decide
    have hstage : ∀ t ∈ crashRecord.stage, ∀ c ∈ t, c.isSurrogate = false := by
      rintro t ht
      cases ht
      decide
    obtain ⟨-, hgraphic, -, hread⟩ :=
      hrecord ⟨Level.info, true⟩ crashRecord rfl (by decide) rfl hmessage hstage
    exact ⟨by decide, hgraphic, hread⟩
  · have hending : ending? ((run []).run crashedSession) = some ⟨1, []⟩ := by decide +kernel
    have hlength : ((run []).after crashedSession).shown.lines.length = 3 := by decide +kernel
    have hformat : Text.lower ((Table.get? "LOG_FORMAT"
        crashedSession.workspace.environment).getD []) = "json" := by decide +kernel
    obtain ⟨τ, hrun⟩ := eq_of_ending? hending
    rw [Action.after, hrun] at hlength
    obtain ⟨before, after, d, d', printed, hemits, hprinted, hlines, -⟩ :=
      hruns [] {} crashedSession τ _ rfl hformat hrun
    have hprinted : τ.shown = printed := hprinted
    rw [← hprinted] at hlines
    exact ⟨{}, τ, before, after, d, d', rfl, hrun, hemits, hlines, hlength⟩

end CommandLine

end LintReport
