import LintReport.Proofs.Finding.Excised
import LintReport.Proofs.Output.Echoed
import LintReport.Proofs.Output.Transport

/-!
Outcomes and echoed sources. What a source holds has no influence on the outcome of an output: with
any other source between the same marks there are the same issues, the same fault, or no issues
either way.
-/
namespace LintReport

open Output (echoing OnlyMarked sourceTrace withoutBanner withoutSources)

/-- Two outputs amount to the same: the same issues, nothing but each output itself, or the same
fault. -/
inductive SameOutcome (output output' : Text) : (outcome outcome' : Except Fault Outcome) → Prop
  | ok (issues : List Issue) : SameOutcome output output' (.ok (.ok issues)) (.ok (.ok issues))
  | failed : SameOutcome output output' (.ok (.failed output)) (.ok (.failed output'))
  | fault (fault : Fault) : SameOutcome output output' (.error fault) (.error fault)

/-- The output itself matters only where there are no issues. -/
theorem Decoded.sameOutcome (workingDir output output' : Text) (d : Decoded Finding) :
    SameOutcome output output' (d.findingOutcome workingDir output)
      (d.findingOutcome workingDir output') := by
  rw [findingOutcome_eq, findingOutcome_eq]
  cases d.items.mapM (Finding.toIssue workingDir) with
  | error fault => exact .fault fault
  | ok issues =>
    cases hintact : d.intact with
    | true => exact .ok issues
    | false => exact .failed

namespace EsLint

variable {start : Text} {echoes echoes' : List (Text × Text)}

/-- An output that starts as an array does so before the first mark. -/
theorem start_of_beginsWith (h : Text.beginsWith "[" (echoing start echoes) = true) :
    ∃ rest, start = .scalar '[' :: rest := by
  obtain ⟨tail, htail⟩ := Text.beginsWith_iff.mp h
  cases start with
  | nil =>
    cases echoes with
    | nil => cases htail
    | cons echo echoes => cases (List.cons.inj htail).1
  | cons c rest =>
    have hc : CodePoint.scalar '[' = c := by
      cases echoes with
      | nil => exact (List.cons.inj htail).1
      | cons echo echoes => exact (List.cons.inj htail).1
    exact ⟨rest, hc ▸ rfl⟩

theorem withoutBanner_echoing (rest : Text) (echoes : List (Text × Text)) :
    withoutBanner "[" (echoing (.scalar '[' :: rest) echoes) =
      Text.joinLines (Text.lines (echoing (.scalar '[' :: rest) echoes)) := by
  obtain ⟨t, ht⟩ : ∃ t, echoing (.scalar '[' :: rest) echoes = .scalar '[' :: t := by
    cases echoes with
    | nil => exact ⟨rest, rfl⟩
    | cons echo echoes => exact ⟨_, rfl⟩
  rw [ht]
  exact @Output.withoutBanner_lines _ [] _ _ (by decide) (by simp) rfl

/-- Echoed sources are cut out whatever they hold, and no outcome depends on them. -/
theorem outcome_echoing (h : OnlyMarked start echoes) :
    withoutSources (echoing start echoes) =
      start ++ (echoes.map Prod.snd).flatMap (sourceTrace ++ ·) ∧
    ∀ echoes', OnlyMarked start echoes' → echoes'.map Prod.snd = echoes.map Prod.snd →
      Text.beginsWith "[" (echoing start echoes) = true → ∀ workingDir,
        SameOutcome (echoing start echoes) (echoing start echoes')
          (outcome workingDir (echoing start echoes))
          (outcome workingDir (echoing start echoes')) := by
  refine ⟨Output.withoutSources_echoing h, ?_⟩
  intro echoes' h' hrests hopen workingDir
  obtain ⟨rest, rfl⟩ := start_of_beginsWith hopen
  have hdecode : decode (echoing (.scalar '[' :: rest) echoes') =
      decode (echoing (.scalar '[' :: rest) echoes) := by
    unfold decode
    rw [withoutBanner_echoing, withoutBanner_echoing, Output.withoutSources_rejoined h h' hrests]
  unfold outcome
  rw [hdecode]
  exact Decoded.sameOutcome _ _ _ _

/-- A file with a message, up to its source. -/
def messageStart : Text := "[\x7b\"messages\":[\x7b\x7d]"

/-- A source with a quote, two units that end a line and half a surrogate pair. -/
def garbage : Text := [.scalar '"', .scalar '\n', .scalar '\u2028', .surrogate 0]

/-- The message before the source is an issue, whether there is garbage in the source or nothing. -/
theorem outcome_echoing_garbage :
    OnlyMarked messageStart [([], "[]\x7d]")] ∧ OnlyMarked messageStart [(garbage, "[]\x7d]")] ∧
    ∃ issue,
      outcome [.scalar '/'] (echoing messageStart [([], "[]\x7d]")]) = .ok (.ok [issue]) ∧
      outcome [.scalar '/'] (echoing messageStart [(garbage, "[]\x7d]")]) = .ok (.ok [issue]) := by
  have hempty : OnlyMarked messageStart [([], "[]\x7d]")] :=
    ⟨by decide +kernel, by decide +kernel⟩
  have hgarbage : OnlyMarked messageStart [(garbage, "[]\x7d]")] :=
    ⟨by decide +kernel, by decide +kernel⟩
  have hsame := (outcome_echoing hempty).2 _ hgarbage rfl (by decide) [.scalar '/']
  have hone : outcome [.scalar '/'] (echoing messageStart [([], "[]\x7d]")]) = _ :=
    findingOutcome_decodeArray _ (by decide +kernel) (by decide +kernel)
  obtain ⟨f, hf⟩ := List.length_eq_one_iff.mp (show (decodeArray (withoutSources (withoutBanner "["
    (echoing messageStart [([], "[]\x7d]")])))).items.length = 1 by decide +kernel)
  rw [hf, List.map_singleton] at hone
  refine ⟨hempty, hgarbage, _, hone, ?_⟩
  rw [hone] at hsame
  generalize outcome _ (echoing messageStart [(garbage, "[]\x7d]")]) = other at hsame
  cases hsame
  rfl

end EsLint

end LintReport
