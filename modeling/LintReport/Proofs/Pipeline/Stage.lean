import LintReport.Pipeline.Basic
import LintReport.Proofs.Finding.Source

/-!
Stages of a pipeline. What a stage amounts to and which command it runs are functions of the
workspace, of the settings and of the interpreter that was found, so a run over some tools is the
sequence of their stages up to the first one that ends it.
-/
namespace LintReport

open LintReport.Action (HasEffect Quiet value hasEffect_pure hasEffect_ofExcept)

variable {w : Workspace} {d : Path}

theorem Tool.quiet_outcome (s : Settings) (workingDir sourceDir : Path) (t : Tool) (exitCode : Int)
    (output : Text) : Quiet w d (t.outcome s workingDir sourceDir exitCode output) := by
  cases t with
  | biome =>
    change Quiet w d (Biome.outcome s.reporter workingDir.toText sourceDir exitCode output)
    unfold Biome.outcome
    cases s.reporter with
    | annotations => exact (hasEffect_ofExcept _).quiet
    | document => exact (Biome.hasEffect_documentOutcome _ _ _).quiet
  | _ => exact (hasEffect_ofExcept _).quiet

namespace Pipeline

/-- Does a tool take part, seen from the root of its group? -/
def takesPart (w : Workspace) (s : Settings) (t : Tool) : Bool :=
  t.isEnabled s && t.isAvailable w (s.root t.group) s

/-- The tools of a group that take part. -/
def activeIn (w : Workspace) (s : Settings) (tools : List Tool) (g : Tool.Group) : List Tool :=
  (tools.filter fun t : Tool => t.group = g).filter (takesPart w s)

/-- The tools that take part, group by group. -/
def stages (w : Workspace) (s : Settings) (tools : List Tool) : List Tool :=
  groups.flatMap (activeIn w s tools)

/-- Can a tool be started? A script needs an interpreter. -/
def canStart (c : Context) (t : Tool) : Bool := t.group = .php || c.interpreter.isSome

/-- The command of a stage, run in the root of its group. -/
def stageCall (c : Context) (t : Tool) : Option Call :=
  if canStart c t then
    some ⟨t.command c.settings c.interpreter, (c.settings.root t.group).toText, c.settings.limit⟩
  else
    none

/-- What the stage of a tool that takes part amounts to in a workspace. -/
def stageOutcome (w : Workspace) (c : Context) (t : Tool) : Except Fault Outcome :=
  let root := c.settings.root t.group
  if canStart c t then do
    let r ← Command.resultIn w (t.command c.settings c.interpreter) c.settings.limit
    value w root (t.outcome c.settings c.workingDir root r.exitCode r.output)
  else
    .ok (.failed Tool.noInterpreter)

/-- Does a stage give issues, be it none? -/
def succeeds (w : Workspace) (c : Context) (t : Tool) : Bool :=
  match stageOutcome w c t with
  | .ok (.ok _) => true
  | _ => false

/-- The stages up to the first one that ends the run. -/
def ran (w : Workspace) (c : Context) : List Tool → List Tool
  | [] => []
  | t :: ts => t :: if succeeds w c t then ran w c ts else []

/-- What a stage contributes: its issues, or the failure that it ends the run with. -/
def stageResult (w : Workspace) (c : Context) (t : Tool) :
    Except Fault (Except Failure (List Issue)) :=
  (stageOutcome w c t).map fun
    | .ok issues => .ok issues
    | .failed output => .error ⟨t, output⟩

/-- Issues, a failure, or a fault, and then what comes after the issues. -/
def joined (r r' : Except Fault (Except Failure (List Issue))) :
    Except Fault (Except Failure (List Issue)) :=
  match r with
  | .ok (.ok issues) => r'.map (Except.map (issues ++ ·))
  | ended => ended

/-- What a run over some stages amounts to. -/
def resultOf (w : Workspace) (c : Context) :
    List Tool → Except Fault (Except Failure (List Issue))
  | [] => .ok (.ok [])
  | t :: ts => joined (stageResult w c t) (resultOf w c ts)

/-- The commands of a run over some stages. -/
def callsOf (w : Workspace) (c : Context) (ts : List Tool) : List Call :=
  (ran w c ts).filterMap (stageCall c)

/-! ### One stage -/

theorem hasEffect_isActive (s : Settings) (t : Tool) :
    HasEffect w d (isActive s t) ⟨.ok (t.isEnabled s && t.isAvailable w d s), [], d⟩ := by
  apply Action.hasEffect_get_bind
  rintro σ rfl rfl
  exact hasEffect_pure _

theorem hasEffect_run {c : Context} {t : Tool} (h : canStart c t = true) :
    HasEffect w d (t.run c.settings c.interpreter)
      ⟨(Command.resultIn w (t.command c.settings c.interpreter) c.settings.limit).map fun r =>
        ⟨r.exitCode, r.output, none⟩,
       [⟨t.command c.settings c.interpreter, d.toText, c.settings.limit⟩], d⟩ := by
  have hrun : t.run c.settings c.interpreter = do
      let r ← Action.execute (t.command c.settings c.interpreter) c.settings.limit none
      return ⟨r.exitCode, r.output, none⟩ := by
    unfold canStart at h
    unfold Tool.run
    cases hg : t.group with
    | php => rfl
    | js =>
      cases hi : c.interpreter with
      | none => simp [hg, hi] at h
      | some word => rfl
  have hexecute := Action.hasEffect_execute (w := w) (d := d)
    (t.command c.settings c.interpreter) c.settings.limit none
  rw [hrun]
  cases hr : Command.resultIn w (t.command c.settings c.interpreter) c.settings.limit with
  | error fault =>
    rw [hr] at hexecute
    exact hexecute.bind_error
  | ok r =>
    rw [hr] at hexecute
    exact hexecute.bind_silent (hasEffect_pure _)

theorem run_of_not_canStart {c : Context} {t : Tool} (h : canStart c t = false) :
    t.run c.settings c.interpreter = return ⟨exitNotFound, [], some Tool.noInterpreter⟩ := by
  simp only [canStart, Bool.or_eq_false_iff, decide_eq_false_iff_not, Option.isSome_eq_false_iff,
    Option.isNone_iff_eq_none] at h
  obtain ⟨hgroup, hnone⟩ := h
  unfold Tool.run
  rw [hnone]
  cases hg : t.group with
  | php => exact absurd hg hgroup
  | js => rfl

/-- A tool that takes part amounts to its stage's outcome and runs its stage's command. -/
theorem hasEffect_runTool (c : Context) (t : Tool) :
    HasEffect w (c.settings.root t.group) (runTool c t)
      ⟨stageOutcome w c t, (stageCall c t).toList, c.settings.root t.group⟩ := by
  unfold runTool stageOutcome stageCall
  apply HasEffect.say_bind
  cases h : canStart c t with
  | false =>
    rw [run_of_not_canStart h]
    exact (hasEffect_pure _).bind_silent (hasEffect_pure _)
  | true =>
    have hrun := hasEffect_run (w := w) (d := c.settings.root t.group) h
    simp only [if_true, Option.toList_some]
    cases hr : Command.resultIn w (t.command c.settings c.interpreter) c.settings.limit with
    | error fault =>
      rw [hr] at hrun
      exact hrun.bind_error
    | ok r =>
      rw [hr] at hrun
      exact hrun.bind_silent (Tool.quiet_outcome _ _ _ _ _ _)

theorem run_stageIssues (c : Context) (t : Tool) :
    (stageIssues c t).run = do
      match ← runStage c t with
      | .ok issues => return .ok issues
      | .failed output =>
        Action.say { level := .error, logger := Logger.pipeline, message := output,
                     stage := some t.name }
        Action.say { level := .error, logger := Logger.pipeline,
                     message := "Error running " ++ t.title ++ Text.ofString ". See errors above.",
                     stage := some t.name }
        return .error ⟨t, output⟩ := by
  refine (ExceptT.run_bind_lift _ _).trans (congrArg _ (funext fun o => ?_))
  cases o with
  | ok issues => rfl
  | failed output =>
    refine (ExceptT.run_bind_lift _ _).trans (congrArg _ (funext fun _ => ?_))
    exact ExceptT.run_bind_lift _ _

theorem hasEffect_stageIssues {c : Context} {t : Tool} (ht : takesPart w c.settings t = true) :
    HasEffect w (c.settings.root t.group) (stageIssues c t).run
      ⟨stageResult w c t, (stageCall c t).toList, c.settings.root t.group⟩ := by
  have hactive := hasEffect_isActive (w := w) (d := c.settings.root t.group) c.settings t
  have hstage : HasEffect w (c.settings.root t.group) (runStage c t)
      ⟨stageOutcome w c t, (stageCall c t).toList, c.settings.root t.group⟩ := by
    change (t.isEnabled c.settings && t.isAvailable w _ c.settings) = true at ht
    rw [ht] at hactive
    exact hactive.bind (hasEffect_runTool c t)
  rw [run_stageIssues, stageResult]
  cases ho : stageOutcome w c t with
  | error fault =>
    rw [ho] at hstage
    exact hstage.bind_error
  | ok o =>
    rw [ho] at hstage
    cases o with
    | ok issues => exact hstage.bind_silent (hasEffect_pure _)
    | failed output =>
      have hfailure : HasEffect w (c.settings.root t.group)
          (pure (Except.error (Failure.mk t output) : Except Failure (List Issue)))
          ⟨.ok (.error ⟨t, output⟩), [], c.settings.root t.group⟩ := hasEffect_pure _
      exact hstage.bind_silent hfailure.say_bind.say_bind

/-- A tool that does not take part contributes nothing. -/
theorem hasEffect_stageIssues_idle {c : Context} {t : Tool}
    (ht : takesPart w c.settings t = false) :
    HasEffect w (c.settings.root t.group) (stageIssues c t).run
      ⟨.ok (.ok []), [], c.settings.root t.group⟩ := by
  have hactive := hasEffect_isActive (w := w) (d := c.settings.root t.group) c.settings t
  have hstage : HasEffect w (c.settings.root t.group) (runStage c t)
      ⟨.ok (.ok []), [], c.settings.root t.group⟩ := by
    change (t.isEnabled c.settings && t.isAvailable w _ c.settings) = false at ht
    rw [ht] at hactive
    exact hactive.bind (hasEffect_pure _)
  rw [run_stageIssues]
  exact hstage.bind_silent (hasEffect_pure _)

end Pipeline

end LintReport
