import LintReport.Proofs.Finding.Outcome
import LintReport.Proofs.Output.Document
import LintReport.Proofs.Session.Interrupted
import LintReport.Proofs.Text.Cut
import LintReport.Proofs.Text.Trimmed

/-!
Outcomes of interrupted commands. No tool's document survives the line that says why a command was
interrupted, so every output that has to be a document fails. Annotations stand on lines of their
own and do survive: they are the same as those among the lines that were printed before.
-/
namespace LintReport

open LintReport.Action (value)
open Command (Interrupted)
open Output (Unclosed)
open Output.Annotation (parse? parseAll)

/-! ### Documents -/

theorem Output.Unclosed.documentText {output : Text} (h : Unclosed output) (t : Tool) :
    Unclosed (t.documentText output) := by
  cases t with
  | esLint => exact (h.withoutBanner _).withoutSources
  | _ => exact h.withoutBanner _

/-- The units that can end what is said about an interruption. -/
def Command.interruptionEnds : List CodePoint := [.scalar 's', .scalar '\'', .scalar '"']

theorem Command.Interrupted.getLast? {w : Workspace} {command : List Text} {limit : Option Seconds}
    {r : CommandResult} (h : Interrupted w command limit r) :
    ∃ c ∈ interruptionEnds, r.output.getLast? = some c := by
  cases h with
  | @notFound word arguments hcommand hprocess =>
    obtain ⟨-, hlast⟩ := Command.notFound_spec word
    rcases hlast with hlast | hlast
    · exact ⟨_, by decide, hlast⟩
    · exact ⟨_, by decide, hlast⟩
  | @timedOut seconds p hprocess hlimit hhangs =>
    obtain ⟨ls, houtput, -⟩ := Command.output_timedOut seconds p
    refine ⟨.scalar 's', by decide, ?_⟩
    rw [houtput, List.getLast?_append, Command.getLast?_timeoutMessage, Option.some_or]

theorem Command.Interrupted.unclosed {w : Workspace} {command : List Text} {limit : Option Seconds}
    {r : CommandResult} (h : Interrupted w command limit r) : Unclosed r.output := by
  obtain ⟨c, hmem, hlast⟩ := h.getLast?
  have hends : ∀ c ∈ interruptionEnds, c.endsLine = false ∧ c ∉ Output.closers := by decide
  exact ⟨c, hlast, hends c hmem⟩

/-! ### Annotations -/

namespace Output.Annotation

theorem parse?_of_head {c : CodePoint} (hc : c ≠ .scalar ':') (s : Text) :
    parse? (c :: s) = none := by
  have hafter : Text.after? "::" (Text.trimRight (· = .scalar '\r') (c :: s)) = none := by
    refine Text.after?_eq_none.mpr fun hopening => hc ?_
    have hwhole := hopening.trans (Text.trimRight_prefix (· = .scalar '\r') (c :: s))
    exact (List.cons_prefix_cons.mp hwhole).1.symm
  rw [parse?, hafter]
  rfl

theorem parse?_nil : parse? [] = none := rfl

end Output.Annotation

/-- The annotations of a program whose time is up. -/
def printedAnnotations (w : Workspace) (command : List Text) : List Output.Annotation :=
  match w.process? command with
  | some p => parseAll (Utf8.decodeLossy p.interrupted)
  | none => []

/-- What is said about the interruption is no annotation, and it spoils none. -/
theorem Command.Interrupted.parseAll_eq {w : Workspace} {command : List Text}
    {limit : Option Seconds} {r : CommandResult} (h : Interrupted w command limit r) :
    parseAll r.output = printedAnnotations w command := by
  cases h with
  | @notFound word arguments hcommand hprocess =>
    obtain ⟨hline, -⟩ := Command.notFound_spec word
    have hmessage : parse? (Command.notFound word).output = none :=
      Output.Annotation.parse?_of_head (c := .scalar '[') (by decide) _
    rw [printedAnnotations, hprocess, parseAll, Text.lines_of_isLine hline (List.cons_ne_nil _ _),
      List.filterMap_cons_none hmessage, List.filterMap_nil]
  | @timedOut seconds p hprocess hlimit hhangs =>
    obtain ⟨ls, houtput, hls⟩ := Command.output_timedOut seconds p
    have hlines : ∀ l ∈ ls, Text.IsLine l := by
      rcases hls with rfl | ⟨rfl, -⟩
      · exact Text.isLine_of_mem_lines _
      · exact fun l hl => absurd hl List.not_mem_nil
    have hmessage : parse? (Command.timeoutMessage seconds) = none :=
      Output.Annotation.parse?_of_head (c := .scalar 'C') (by decide) _
    rw [printedAnnotations, hprocess, parseAll, houtput, Text.lines_append_lines hlines,
      Text.lines_of_isLine (Command.isLine_timeoutMessage seconds)
        (Command.timeoutMessage_ne_nil seconds), List.filterMap_append,
      List.filterMap_cons_none hmessage, List.filterMap_nil, List.append_nil]
    rcases hls with rfl | ⟨rfl, hempty⟩
    · rfl
    · refine (List.filterMap_eq_nil_iff.mpr fun l hl => ?_).symm
      rw [hempty l hl]
      exact Output.Annotation.parse?_nil

/-! ### Outcomes -/

section Outcome

variable {w : Workspace} {d : Path} {command : List Text} {limit : Option Seconds}
  {r : CommandResult} {s : Settings} {workingDir sourceDir : Path} {t : Tool}

theorem Command.Interrupted.trimBlanks_ne_nil (h : Interrupted w command limit r) :
    r.output.trimBlanks ≠ [] := by
  obtain ⟨c, hmem, hlast⟩ := h.getLast?
  have hblank : ∀ c ∈ interruptionEnds, c.isBlank = false := by decide
  exact List.ne_nil_of_mem (Text.mem_trim (List.mem_of_getLast? hlast) (hblank c hmem))

/-- Does the output of an interrupted command count as a report after all? -/
def TakenForReport (w : Workspace) (s : Settings) (t : Tool) (command : List Text) : Prop :=
  t = .biome ∧ s.reporter = .annotations ∧ printedAnnotations w command ≠ []

theorem value_outcome_annotations {exitCode : Int} {output : Text}
    (h : s.reporter = .annotations) :
    value w d (Tool.biome.outcome s workingDir sourceDir exitCode output) =
      Biome.annotationOutcome workingDir.toText output exitCode := by
  change value w d (Biome.outcome _ _ _ _ _) = _
  unfold Biome.outcome
  rw [h]
  exact Action.value_ofExcept _

/-- The annotations that were printed in time make up the whole outcome. -/
theorem Command.Interrupted.outcome_of_taken (h : Interrupted w command limit r)
    (ht : TakenForReport w s t command) :
    value w d (t.outcome s workingDir sourceDir r.exitCode r.output) =
      ((printedAnnotations w command).mapM fun a =>
        (Biome.annotationFinding a).toIssue workingDir.toText).map .ok := by
  obtain ⟨rfl, hreporter, hprinted⟩ := ht
  refine (value_outcome_annotations hreporter).trans ?_
  rw [Biome.annotationOutcome, h.parseAll_eq]
  cases hfound : printedAnnotations w command with
  | nil => exact absurd hfound hprinted
  | cons a found => rfl

theorem Command.Interrupted.outcome_failed (h : Interrupted w command limit r)
    (ht : ¬ TakenForReport w s t command) :
    value w d (t.outcome s workingDir sourceDir r.exitCode r.output) = .ok (.failed r.output) := by
  by_cases hreporter : t = .biome ∧ s.reporter = .annotations
  · obtain ⟨rfl, hreporter⟩ := hreporter
    have hprinted : printedAnnotations w command = [] :=
      Decidable.of_not_not fun hne => ht ⟨rfl, hreporter, hne⟩
    refine (value_outcome_annotations hreporter).trans ?_
    rw [Biome.annotationOutcome, h.parseAll_eq, hprinted]
    exact congrArg Except.ok (if_pos ⟨h.exitCode_ne_zero, h.trimBlanks_ne_nil⟩)
  · -- the last unit of the output ends no document
    refine Tool.value_outcome_unread (fun hbiome => ?_)
      (Output.document?_of_unclosed (h.unclosed.documentText t))
    cases hs : s.reporter with
    | document => rfl
    | annotations => exact absurd ⟨hbiome, hs⟩ hreporter

end Outcome

end LintReport
