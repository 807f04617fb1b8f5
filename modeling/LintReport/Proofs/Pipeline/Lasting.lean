import LintReport.Proofs.Pipeline.Effect
import LintReport.Proofs.Session.Kept

/-!
What holds across a run of the pipeline. A relation between sessions that holds across what is said
and across every command holds across every stage, and if it holds across changes of the directory
too, across whole runs: the pipeline does nothing else to a session.
-/
namespace LintReport

open LintReport.Action (Holds holds_get_bind holds_returning)

variable {R : Session → Session → Prop} (hR : Session.Durable R)

include hR

/-! ### Tools -/

theorem Interpreter.holds_detect (s : Settings) : Holds R (detect s) := by
  have hfirst (limit : Option Seconds) (candidates : List Text) :
      Holds R (firstRunning limit candidates) := by
    induction candidates with
    | nil => exact hR.holds_pure none
    | cons candidate candidates ih =>
      refine hR.holds_bind (hR.holds_execute _ _ _) fun r => ?_
      split
      · exact hR.holds_pure _
      · exact ih
  refine hR.holds_bind (hfirst _ _) fun found => ?_
  exact hR.holds_bind (hR.holds_say _ rfl) fun _ => hR.holds_pure found

theorem Biome.holds_readSource (sourceDir : Path) (file : Json) :
    Holds R (readSource sourceDir file) := by
  unfold readSource
  split
  · exact hR.holds_pure _
  · split
    · refine holds_get_bind fun σ => hR.holds_bind (hR.holds_ofExcept _) fun r => ?_
      split
      · exact hR.holds_pure _
      · exact hR.holds_bind (hR.holds_say _ rfl) fun _ => hR.holds_pure _
    · exact hR.holds_throw _

theorem Biome.holds_sourceLines (sourceDir : Path) (d : Diagnostic) :
    Holds R (sourceLines sourceDir d) := by
  unfold sourceLines
  split
  · exact hR.holds_pure _
  · split
    · exact hR.holds_pure _
    · exact hR.holds_throw _
  · refine hR.holds_bind (holds_readSource hR sourceDir d.file) fun bytes => ?_
    split <;> exact hR.holds_pure _

theorem Biome.holds_outcome (reporter : Reporter) (workingDir : Text) (sourceDir : Path)
    (exitCode : Int) (output : Text) :
    Holds R (outcome reporter workingDir sourceDir exitCode output) := by
  have hissue (d : Diagnostic) : Holds R (Diagnostic.issue workingDir sourceDir d) :=
    hR.holds_bind (holds_sourceLines hR sourceDir d) fun lines => hR.holds_ofExcept _
  cases reporter with
  | annotations => exact hR.holds_ofExcept _
  | document => exact hR.holds_bind (hR.holds_mapM hissue _) fun issues => hR.holds_pure _

theorem Tool.holds_outcome (s : Settings) (workingDir sourceDir : Path) (t : Tool) (exitCode : Int)
    (output : Text) : Holds R (t.outcome s workingDir sourceDir exitCode output) := by
  cases t with
  | biome => exact Biome.holds_outcome hR _ _ _ _ _
  | _ => exact hR.holds_ofExcept _

theorem Tool.holds_run (s : Settings) (interpreter : Option Text) (t : Tool) :
    Holds R (t.run s interpreter) := by
  unfold run
  split
  · exact hR.holds_pure _
  · exact hR.holds_bind (hR.holds_execute _ _ _) fun r => hR.holds_pure _

/-! ### Stages -/

namespace Pipeline

theorem holds_isActive (s : Settings) (t : Tool) : Holds R (isActive s t) :=
  holds_get_bind fun _ => hR.holds_pure _

theorem holds_interpreterFor (s : Settings) (tools : List Tool) :
    Holds R (interpreterFor s tools) := by
  refine hR.holds_bind (hR.holds_anyM (holds_isActive hR s) _) fun needed => ?_
  split
  · exact Interpreter.holds_detect hR s
  · exact hR.holds_pure none

theorem holds_runStage (c : Context) (t : Tool) : Holds R (runStage c t) := by
  refine hR.holds_bind (holds_isActive hR c.settings t) fun active => ?_
  split
  · refine hR.holds_bind (hR.holds_say _ rfl) fun _ => ?_
    refine hR.holds_bind (t.holds_run hR c.settings c.interpreter) fun raw => ?_
    split
    · exact hR.holds_pure _
    · exact t.holds_outcome hR _ _ _ _ _
  · exact hR.holds_pure _

theorem holds_stageIssues (c : Context) (t : Tool) : Holds R (stageIssues c t).run := by
  rw [run_stageIssues]
  refine hR.holds_bind (holds_runStage hR c t) fun outcome => ?_
  split
  · exact hR.holds_pure _
  · refine hR.holds_bind (hR.holds_say _ rfl) fun _ => ?_
    exact hR.holds_bind (hR.holds_say _ rfl) fun _ => hR.holds_pure _

variable (hchange : ∀ path, Holds R (Action.changeDirectory path))

include hchange

theorem holds_allIssues (c : Context) (tools : List Tool) : Holds R (allIssues c tools).run := by
  have hgroup (g : Tool.Group) : Holds R (groupIssues c tools g).run := by
    rw [run_groupIssues]
    refine hR.holds_bind (hR.holds_enter hchange _) fun _ => ?_
    exact hR.holds_run_bind (hR.holds_run_mapM (holds_stageIssues hR c) _) fun found =>
      hR.holds_pure _
  exact hR.holds_run_bind (hR.holds_run_mapM hgroup _) fun found => hR.holds_pure _

theorem holds_run (s : Settings) (tools : List Tool) (workingDir : Option Path) :
    Holds R (run s tools workingDir) := by
  refine holds_get_bind fun σ => ?_
  refine hR.holds_bind (holds_interpreterFor hR s tools) fun interpreter => ?_
  have hstages := holds_allIssues hR hchange
    ⟨s, interpreter, workingDir.getD σ.directory⟩ tools
  refine hR.holds_bind (holds_returning hR.toLasting hchange hstages) fun result => ?_
  cases result with
  | ok issues => exact hR.holds_bind (hR.holds_say _ rfl) fun _ => hR.holds_pure _
  | error failure => exact hR.holds_pure _

end Pipeline

end LintReport
