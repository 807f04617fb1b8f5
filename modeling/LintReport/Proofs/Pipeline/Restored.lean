import LintReport.Proofs.Pipeline.Lasting
import LintReport.Proofs.Pipeline.Trace

/-!
The way back of a run. Whatever the roots are and wherever a run ends, in issues, in a failure or in
a fault of any of its stages, the session is back in the directory where it was. What comes out is
what the stages gave.
-/
namespace LintReport

open LintReport.Action (Keeps keeps_of_hasEffect)

theorem Session.durable_place : Session.Durable fun σ τ => τ.place = σ.place :=
  { lasting_view Session.place with
    holds_say := fun r _ => keeps_of_hasEffect fun _ _ => ⟨_, _, Action.hasEffect_say r⟩
    holds_execute := fun _ _ _ =>
      keeps_of_hasEffect fun _ _ => ⟨_, _, Action.hasEffect_execute _ _ _⟩ }

theorem Session.durable_workspace : Session.Durable fun σ τ => τ.workspace = σ.workspace :=
  { lasting_view Session.workspace with
    holds_say := fun r hr => Action.Keeps.workspace (durable_place.holds_say r hr)
    holds_execute := fun _ _ _ => Action.Keeps.workspace (durable_place.holds_execute _ _ _) }

namespace Pipeline

theorem keeps_interpreterFor (s : Settings) (tools : List Tool) :
    Keeps Session.place (interpreterFor s tools) :=
  holds_interpreterFor Session.durable_place s tools

/-- Stages change the directory and nothing else around the session. -/
theorem keeps_allIssues (c : Context) (tools : List Tool) :
    Keeps Session.workspace (allIssues c tools).run :=
  holds_allIssues Session.durable_workspace Action.keeps_changeDirectory c tools

/-- How a run ends: the number of issues is said, and the result stays what it is. -/
def closing (result : Except Failure (List Issue)) : Action (Except Failure (List Issue)) := do
  if let .ok issues := result then
    Action.say { level := .debug, logger := Logger.pipeline,
                 message := "Analysis complete: " ++ Text.ofNat issues.length ++
                   Text.ofString " issues" }
  return result

theorem run_eq (s : Settings) (tools : List Tool) (workingDir : Option Path) :
    run s tools workingDir = get >>= fun σ : Session =>
      interpreterFor s tools >>= fun interpreter =>
        Action.returning (allIssues ⟨s, interpreter, workingDir.getD σ.directory⟩ tools).run >>=
          closing := by
  rfl

theorem closing_spec (result : Except Failure (List Issue)) (σ : Session) :
    ((closing result).after σ).directory = σ.directory ∧ (closing result).given σ = .ok result := by
  cases result <;> exact ⟨rfl, rfl⟩

/-- Whatever the settings and the tools are and however a run ends, the session is back in the
directory where it was. The way back hides nothing: what comes out is what the stages gave, after
the questions to the interpreters. None of this depends on what the stages are, as long as they
leave the workspace alone. -/
theorem run_restores {σ : Session} (hσ : σ.Placed) (s : Settings) (tools : List Tool)
    (workingDir : Option Path) :
    ((run s tools workingDir).after σ).directory = σ.directory ∧
      (run s tools workingDir).given σ = (do
        let interpreter ← (interpreterFor s tools).given σ
        (allIssues ⟨s, interpreter, workingDir.getD σ.directory⟩ tools).run.given
          ((interpreterFor s tools).after σ)) ∧
      ∀ (α : Type) (stages : Action α), Keeps Session.workspace stages →
        ((Action.returning stages).after σ).directory = σ.directory ∧
          (Action.returning stages).given σ = stages.given σ := by
  have hasked : ((interpreterFor s tools).after σ).place = σ.place := keeps_interpreterFor s tools σ
  obtain ⟨hworkspace, hdirectory⟩ := Prod.mk.inj hasked
  have hstages (interpreter : Option Text) := Action.returning_spec (hσ.congr hworkspace hdirectory)
    (keeps_allIssues ⟨s, interpreter, workingDir.getD σ.directory⟩ tools _)
  rw [run_eq, Action.after_get_bind, Action.given_get_bind, Action.after_bind, Action.given_bind]
  refine ⟨?_, ?_, fun α stages hkeeps => ?_⟩
  · cases (interpreterFor s tools).given σ with
    | error fault => exact hdirectory
    | ok interpreter =>
      obtain ⟨hback, -⟩ := hstages interpreter
      dsimp only
      rw [Action.after_bind]
      split
      · rw [(closing_spec _ _).1, hback, hdirectory]
      · rw [hback, hdirectory]
  · refine congrArg _ (funext fun interpreter => ?_)
    obtain ⟨-, -, hgiven⟩ := hstages interpreter
    rw [Action.given_bind, hgiven]
    simp only [(closing_spec _ _).2]
    exact bind_pure _
  · obtain ⟨hback, -, hgiven⟩ := Action.returning_spec hσ (hkeeps σ)
    exact ⟨hback, hgiven⟩

/-- The root of the scripts is missing, so the run ends in a fault when it has already been in the
root of the other tools. The session is back nevertheless. -/
theorem run_restores_psalmSession :
    ∃ s σ, (Settings.load (some "vendor") (some "missing") []).run psalmSession = .ok s σ ∧
      σ.Placed ∧ s.phpRoot ≠ σ.directory ∧ σ.workspace.isDirectory s.phpRoot ∧
      σ.workspace.isDirectory s.jsRoot = false ∧
      ((run s Tool.all none).given σ).isOk = false ∧
      ((run s Tool.all none).after σ).directory = σ.directory := by
  obtain ⟨s, σ, hload, hresolved, hdirectory, hphp, hother, hjs, hfault⟩ : ∃ s σ,
      (Settings.load (some "vendor") (some "missing") []).run psalmSession = .ok s σ ∧
      σ.directory = Snapshot.home ∧ σ.workspace.isDirectory σ.directory ∧
      σ.workspace.isDirectory s.phpRoot ∧ s.phpRoot ≠ σ.directory ∧
      σ.workspace.isDirectory s.jsRoot = false ∧
      ((run s Tool.all none).given σ).isOk = false :=
    ⟨_, _, rfl, rfl, by decide, by decide, by decide, by decide, by decide +kernel⟩
  have hplaced : σ.Placed := ⟨hresolved ▸ Snapshot.resolved_home, hdirectory⟩
  obtain ⟨hback, -⟩ := run_restores hplaced s Tool.all none
  exact ⟨s, σ, hload, hplaced, hother, hphp, hjs, hfault, hback⟩

end Pipeline

end LintReport
