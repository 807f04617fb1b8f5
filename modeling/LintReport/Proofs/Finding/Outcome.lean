import LintReport.Settings.Load
import LintReport.Proofs.Finding.Envelope
import LintReport.Proofs.Pipeline.Stage

/-!
Outcomes of outputs. A tool's output amounts to the issues of all its findings, in their order, or
to the output itself. Nothing in between is possible: an entry of a wrong shape spoils everything,
however many findings stand before it.
-/
namespace LintReport

open LintReport.Action (value hasEffect_ofExcept)
open Tool (spread)

/-- An outcome is that of a document as a whole, or there is no document of the right shape and the
outcome is the output. -/
structure AllOrNothing (output : Text) (document : Option Json) (fits : Json → Bool)
    (reported : Json → List (Except Fault Issue)) (outcome : Outcome) : Prop where
  all : ∀ v, document = some v → fits v = true →
    ∃ issues, outcome = .ok issues ∧ reported v = issues.map .ok
  nothing : (∀ v, document = some v → fits v = false) → outcome = .failed output

namespace Decoded

variable {α : Type} {d : Decoded α} {document : Option Json} {fits : Json → Bool}
  {found : Json → List α} {build : α → Except Fault (List Issue)} {output : Text}

theorem Decodes.outcome_unread (h : d.Decodes document fits found) (hnone : document = none) :
    d.outcome output build = .ok (.failed output) := by
  rw [h.unread hnone]
  rfl

/-- What was decoded and built as a whole is all that was found; else the output is all there is. -/
theorem Decodes.allOrNothing {outcome : Outcome} (h : d.Decodes document fits found)
    (hout : d.outcome output build = .ok outcome) :
    AllOrNothing output document fits (fun v => (found v).flatMap fun x => spread (build x))
      outcome := by
  unfold Decoded.outcome at hout
  cases hbuilt : d.items.mapM build with
  | error fault =>
    rw [hbuilt] at hout
    cases hout
  | ok built =>
    rw [hbuilt] at hout
    replace hout : outcome = if d.intact then .ok built.flatten else .failed output :=
      (Except.ok.inj hout).symm
    constructor
    · intro v hv hfits
      have hd := h.whole v hv hfits
      rw [hd] at hbuilt hout
      refine ⟨built.flatten, hout, ?_⟩
      rw [← List.flatMap_map, map_eq_of_mapM_eq_ok hbuilt, List.flatMap_map, List.map_flatten,
        List.flatMap_def]
      rfl
    · intro hnot
      have hspoiled : d.intact = false := by
        cases hdoc : document with
        | none => rw [h.unread hdoc]; rfl
        | some v => exact h.spoiled v hdoc (hnot v hdoc)
      rw [hout, hspoiled]
      rfl

end Decoded

namespace Tool

variable {w : Workspace} {d : Path} {s : Settings} {workingDir sourceDir : Path} {t : Tool}
  {exitCode : Int} {output : Text}

theorem spread_single (r : Except Fault Issue) : spread (r.map ([·])) = [r] := by
  cases r <;> rfl

theorem flatMap_spread_single {α : Type} (f : α → Except Fault Issue) (xs : List α) :
    (xs.flatMap fun x => spread ((f x).map ([·]))) = xs.map f := by
  simp only [spread_single, List.map_eq_flatMap]

/-- Every tool decodes its document and builds its issues from what was decoded. -/
theorem exists_decoding (w : Workspace) (d : Path) (s : Settings) (workingDir sourceDir : Path)
    (exitCode : Int) (output : Text) (hreporter : t = .biome → s.reporter = .document) :
    ∃ (α : Type) (decoded : Decoded α) (found : Json → List α)
      (build : α → Except Fault (List Issue)),
      decoded.Decodes (Output.document? (t.documentText output)) t.fits found ∧
      value w d (t.outcome s workingDir sourceDir exitCode output) =
        decoded.outcome output build ∧
      ∀ v, t.reported w d workingDir.toText sourceDir v =
        (found v).flatMap fun x => spread (build x) := by
  have hfindings (fs : List Finding) := flatMap_spread_single (·.toIssue workingDir.toText) fs
  cases t with
  | psalm =>
    refine ⟨_, _, _, _, Psalm.decodes_decode output, Action.value_ofExcept _, fun v => ?_⟩
    rw [hfindings, List.map_map]
    rfl
  | phpStan | phpCs =>
    refine ⟨_, _, _, _, (Decoded.decodes_ofFileMap _ _).map _, Action.value_ofExcept _,
      fun v => ?_⟩
    rw [hfindings, List.map_map]
    rfl
  | ecs =>
    exact ⟨_, _, _, _, Decoded.decodes_ofFileMap _ _, Action.value_ofExcept _, fun v => rfl⟩
  | esLint | styleLint =>
    refine ⟨_, _, _, _, (Decoded.decodes_ofEntryList _ _).map _, Action.value_ofExcept _,
      fun v => ?_⟩
    rw [hfindings, List.map_map]
    rfl
  | biome =>
    refine ⟨_, Biome.decode output, _,
      fun diagnostic => (diagnostic.issueIn w d workingDir.toText sourceDir).map ([·]),
      Biome.decodes_decode output, ?_, fun v => ?_⟩
    · change value w d (Biome.outcome _ _ _ _ _) = _
      unfold Biome.outcome
      rw [hreporter rfl]
      refine (Biome.hasEffect_documentOutcome _ _ _).value_eq.trans ?_
      rw [Decoded.outcome, mapM_single]
      cases (Biome.decode output).items.mapM
          (Biome.Diagnostic.issueIn w d workingDir.toText sourceDir) with
      | error fault => rfl
      | ok issues =>
        change _ = Except.ok (if (Biome.decode output).intact then
          Outcome.ok (issues.map ([·])).flatten else .failed output)
        rw [flatten_single]
        rfl
    · rw [flatMap_spread_single, List.map_map]
      rfl

/-- An output without a document fails as it is. -/
theorem value_outcome_unread (hreporter : t = .biome → s.reporter = .document)
    (hnone : Output.document? (t.documentText output) = none) :
    value w d (t.outcome s workingDir sourceDir exitCode output) = .ok (.failed output) := by
  obtain ⟨α, decoded, found, build, hdecodes, hvalue, -⟩ :=
    exists_decoding w d s workingDir sourceDir exitCode output hreporter
  rw [hvalue]
  exact hdecodes.outcome_unread hnone

end Tool

end LintReport
