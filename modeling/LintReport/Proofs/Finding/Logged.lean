import LintReport.Proofs.Finding.Tolerated
import LintReport.Proofs.Output.Log
import LintReport.Proofs.Path.Relative

/-!
Findings in a build log. Every annotation of a log is a finding, and its whole message is the
description of an issue, if nothing in it breaks the line or cannot be encoded.
-/
namespace LintReport

open Output (LogLine logAnnotations logText Annotation)
open Output.Annotation (OneLine lowered parseAll)

theorem Json.shownOrNothing_string (s : Text) : (Json.string s).shownOrNothing = s := by
  cases s with
  | nil => rfl
  | cons c s => rfl

namespace Biome

/-- The name of the file in an annotation. -/
def fileName (a : Annotation) : Text := (Table.get? "file" a.properties).getD []

/-- An annotation without half a surrogate pair in what identifies its issue. -/
def Encodable (a : Annotation) : Prop := ∀ c ∈ fileName a ++ a.message, c.isSurrogate = false

instance (a : Annotation) : Decidable (Encodable a) :=
  inferInstanceAs (Decidable (∀ c ∈ fileName a ++ a.message, c.isSurrogate = false))

variable {a : Annotation} {ls : List LogLine}

theorem description_annotationFinding (a : Annotation) :
    (annotationFinding a).description = Text.ofString "Biome: " ++ a.message := by
  rw [annotationFinding, Finding.describe, Json.shownOrNothing_string]
  rfl

theorem shownOrNothing_property (a : Annotation) :
    (annotationFinding a).path.shownOrNothing = fileName a := by
  rw [annotationFinding, property, fileName]
  cases Table.get? "file" a.properties with
  | none => rfl
  | some file => exact Json.shownOrNothing_string file

theorem Encodable.harmless (h : Encodable a) (workingDir : Text) :
    (annotationFinding (lowered a)).Harmless workingDir where
  finite := by
    have hnumber (name : Text) : Position.isInfinite (number name (lowered a)) = false := by
      rw [number]
      cases (lowered a).number? name <;> rfl
    exact Finding.forall_parts.mpr ⟨hnumber _, hnumber _, hnumber _, hnumber _⟩
  whole := by
    intro c hc
    rw [shownOrNothing_property, description_annotationFinding] at hc
    rcases List.mem_append.mp hc with hc | hc
    · exact h c (List.mem_append_left _ (mem_of_mem_relativePath hc))
    · rcases List.mem_append.mp hc with hc | hc
      · exact Text.isSurrogate_of_mem_ofChars hc
      · exact h c (List.mem_append_right _ hc)

/-- The annotations of a log are read as they were written, but for the case of their severities, if
and only if each can be written on one line. Then each that can be encoded gives one issue, which
has its whole message for a description. -/
theorem outcome_log (h : ∀ l ∈ ls, l.Proper) (workingDir : Text) (sourceDir : Path) (exitCode : Int)
    (σ : Session) :
    (parseAll (logText ls) = (logAnnotations ls).map lowered ↔
      ∀ a ∈ logAnnotations ls, OneLine a) ∧
    ((∀ a ∈ logAnnotations ls, OneLine a ∧ Encodable a) →
      ∃ issues,
        issues.map Issue.description =
          (logAnnotations ls).map (fun a => Text.ofString "Biome: " ++ a.message) ∧
        (outcome .annotations workingDir sourceDir exitCode (logText ls)).run σ =
          .ok (if logAnnotations ls ≠ [] ∨ exitCode = 0 ∨ (logText ls).trimBlanks = [] then
            .ok issues else .failed (logText ls)) σ) := by
  refine ⟨Output.parseAll_logText h, fun hclear => ?_⟩
  have hparse : parseAll (logText ls) = (logAnnotations ls).map lowered :=
    Output.parseAll_logText_of_oneLine h fun a ha => (hclear a ha).1
  have hitems : (decodeAnnotations exitCode (logText ls)).items =
      (logAnnotations ls).map (annotationFinding ∘ lowered) := by
    rw [decodeAnnotations, hparse, List.map_map]
  have hintact : (decodeAnnotations exitCode (logText ls)).intact =
      decide (logAnnotations ls ≠ [] ∨ exitCode = 0 ∨ (logText ls).trimBlanks = []) := by
    simp only [decodeAnnotations, hparse, ne_eq, List.map_eq_nil_iff]
  have hbounded : ∀ f ∈ (decodeAnnotations exitCode (logText ls)).items,
      ∀ v ∈ f.parts, v.Bounded := fun f hf => Tool.bounded_parts (t := .biome) hf
  have hharmless : ∀ f ∈ (decodeAnnotations exitCode (logText ls)).items,
      f.Harmless workingDir := by
    rw [hitems]
    intro f hf
    obtain ⟨a, ha, rfl⟩ := List.mem_map.mp hf
    exact (hclear a ha).2.harmless workingDir
  refine ⟨(logAnnotations ls).map fun a => (annotationFinding (lowered a)).tolerated workingDir,
    ?_, ?_⟩
  · rw [List.map_map]
    exact List.map_congr_left fun a _ => description_annotationFinding (lowered a)
  · rw [outcome, annotationOutcome_eq, Decoded.findingOutcome_of_harmless hbounded hharmless,
      hitems, hintact, List.map_map]
    simp only [decide_eq_true_eq]
    rfl

/-- A log with one annotation in it, whose message has a percent sign and two lines. -/
def halfwayLog : List LogLine :=
  [.other "Checked 1 file.",
   .entry
     { severity := "Error", message := "50%\nof it", properties := [("file", "a,b.js")] }]

theorem outcome_log_halfway :
    logText halfwayLog = "Checked 1 file.\n::Error file=a%2Cb.js::50%25%0Aof it" ∧
      ∃ σ issues, issues.map Issue.description = [Text.ofString "Biome: 50%\nof it"] ∧
        (outcome .annotations [] ⟨.slash, []⟩ 1 (logText halfwayLog)).run σ =
          .ok (.ok issues) σ := by
  have hproper : ∀ l ∈ halfwayLog, l.Proper := by
    refine List.forall_mem_cons.mpr ⟨?_, List.forall_mem_singleton.mpr ?_⟩
    · exact (by decide : ¬ Text.ofString "::" <:+: Text.ofString "Checked 1 file.")
    · exact ⟨by decide, by decide, by decide, by decide⟩
  have hclear : ∀ a ∈ logAnnotations halfwayLog, OneLine a ∧ Encodable a :=
    List.forall_mem_singleton.mpr ⟨⟨by decide, by decide⟩, by decide⟩
  obtain ⟨issues, hissues, hrun⟩ := (outcome_log hproper [] ⟨.slash, []⟩ 1
    { workspace := {}, directory := ⟨.slash, []⟩ }).2 hclear
  exact ⟨by decide, _, issues, hissues, hrun⟩

end Biome

end LintReport
