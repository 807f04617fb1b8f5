import LintReport.Proofs.Finding.Fingerprint
import LintReport.Proofs.Path.Relative

/-!
What all issues have in common. Whatever a tool prints, its issues have a severity of the report, a
name, a description under the label of the tool, natural numbers for their places, a path that is
the full path or what of it lies below the working directory, and the fingerprint of their parts.
-/
namespace LintReport

open LintReport.Action (value)

/-! ### Issues and their findings -/

/-- The numbers in a position are natural numbers, as far as they are known. -/
structure Position.IsNatural (p : Position) : Prop where
  line : 0 ≤ p.line
  others : ∀ part ∈ [p.column, p.endLine, p.endColumn], ∀ n, part = some n → 0 ≤ n

theorem Position.nonneg_of_usable? {v : Json} {n : Int} (h : usable? v = some n) : 0 ≤ n := by
  have hfilter (n? : Option Int) (h : n?.filter (0 ≤ ·) = some n) : 0 ≤ n :=
    of_decide_eq_true (Option.filter_eq_some_iff.mp h).2
  cases v with
  | int k => exact hfilter (some k) h
  | float x => exact hfilter x.truncate? h
  | string s => exact hfilter s.toInt? h
  | _ => cases h

theorem Position.end_of_toJson (p : Position) :
    (p.toJson.member? "end").isSome = (p.endLine.isSome || p.endColumn.isSome) := by
  obtain ⟨line, column, endLine, endColumn⟩ := p
  cases endLine <;> cases endColumn <;> rfl

namespace Finding

variable {f : Finding} {workingDir : Text} {issue : Issue}

theorem isNatural_place (f : Finding) : f.place.IsNatural where
  line := by
    rw [place]
    cases h : Position.usable? f.line with
    | none => exact Int.zero_le_ofNat 1
    | some n => exact Position.nonneg_of_usable? h
  others := by
    intro part hpart n hn
    simp only [place, List.mem_cons, List.not_mem_nil, or_false] at hpart
    rcases hpart with rfl | rfl | rfl
    all_goals exact Position.nonneg_of_usable? hn

/-- The issue of a finding is the one that tolerates what cannot be used. -/
theorem eq_tolerated_of_toIssue (h : f.toIssue workingDir = .ok issue) :
    issue = f.tolerated workingDir := by
  obtain ⟨position, hposition, hsealed⟩ := bind_eq_ok h
  rw [position_eq] at hposition
  split at hposition
  · cases hposition
  · cases hposition
    rw [Issue.sealed, if_pos rfl] at hsealed
    obtain ⟨fingerprint, hfingerprint, heq⟩ := bind_eq_ok hsealed
    cases heq
    obtain ⟨bytes, hbytes, rfl⟩ := Issue.digest_of_fingerprintOf hfingerprint
    rw [Text.encode] at hbytes
    split at hbytes
    · cases hbytes
    · cases hbytes
      rfl

end Finding

/-! ### What an issue represents -/

/-- What the descriptions of a tool's issues begin with. -/
def Tool.label : Tool → Text
  | psalm => "Psalm: "
  | phpStan => "PHPStan: "
  | phpCs => "PHP CS: "
  | ecs => "ECS: "
  | esLint => "ESLint: "
  | styleLint => "StyleLint: "
  | biome => "Biome: "

/-- An issue as the issues of a tool are, seen from a working directory. -/
structure Issue.Represents (issue : Issue) (t : Tool) (workingDir : Text) : Prop where
  word : issue.severity.name ∈ [Text.ofString "info", "minor", "major", "critical"]
  severity : Severity.checked (.string issue.severity.name) = .ok issue.severity
  checkName : issue.checkName ≠ []
  description : t.label <+: issue.description
  position : issue.location.position.IsNatural
  fullPath : issue.location.fullPath = issue.location.path ∨
    issue.location.fullPath =
      Text.trimRight (· = .scalar '/') workingDir ++ .scalar '/' :: issue.location.path
  fingerprint : issue.IsDigested
  stop : (issue.location.position.toJson.member? "end").isSome =
    (issue.location.position.endLine.isSome || issue.location.position.endColumn.isSome)

namespace Tool

variable {t : Tool} {f : Finding} {workingDir : Text} {issue : Issue}

theorem label_prefix_of_finds (h : t.Finds f) : t.label <+: f.description := by
  have hdescribe (tool : Text) (message : Json) :
      tool ++ [.scalar ':', .scalar ' '] <+: Finding.describe tool message :=
    ⟨message.shownOrNothing, by simp [Finding.describe]⟩
  cases t with
  | psalm =>
    obtain ⟨entry, rfl⟩ := h
    exact hdescribe "Psalm" _
  | phpStan =>
    obtain ⟨file, message, rfl⟩ := h
    exact hdescribe "PHPStan" _
  | phpCs =>
    obtain ⟨file, message, rfl⟩ := h
    exact hdescribe "PHP CS" _
  | ecs =>
    obtain ⟨file, line, checker, rfl⟩ := h
    exact List.prefix_append _ _
  | esLint =>
    obtain ⟨entry, message, rfl⟩ := h
    exact hdescribe "ESLint" _
  | styleLint =>
    obtain ⟨entry, warning, rfl⟩ := h
    exact hdescribe "StyleLint" _
  | biome =>
    obtain ⟨a, rfl⟩ | ⟨diagnostic, lines, rfl⟩ := h
    · exact hdescribe "Biome" _
    · exact hdescribe "Biome" _

theorem represents_of_finds (hf : t.Finds f) (h : f.toIssue workingDir = .ok issue) :
    issue.Represents t workingDir := by
  have hdigested := Finding.isDigested_of_toIssue h
  have hdescription := label_prefix_of_finds hf
  have hlabel : t.label ≠ [] := by cases t <;> decide
  obtain rfl := Finding.eq_tolerated_of_toIssue h
  exact {
    word := by cases (f.tolerated workingDir).severity <;> decide
    severity := by rw [Severity.checked, Severity.ofName?_name]
    checkName := by
      rw [Finding.tolerated]
      split
      · exact hdescription.ne_nil hlabel
      · next hrule => exact hrule
    description := hdescription
    position := f.isNatural_place
    fullPath := relativePath_spec workingDir f.path.shownOrNothing
    fingerprint := hdigested
    stop := f.place.end_of_toJson }

end Tool

/-! ### Severities that are known -/

/-- Is the fault a severity that the report does not know? -/
def Fault.isSeverity : Fault → Bool
  | unknownSeverity _ => true
  | _ => false

/-- If a fault is all that comes out, it is no severity that the report does not know. -/
def SeverityKnown {α : Type} (r : Except Fault α) : Prop :=
  ∀ fault, r = .error fault → fault.isSeverity = false

section SeverityKnown

variable {α β : Type} {r : Except Fault α} {fault : Fault}

theorem severityKnown_ok (a : α) : SeverityKnown (.ok a : Except Fault α) := by
  intro fault h
  cases h

theorem severityKnown_error (h : fault.isSeverity = false) :
    SeverityKnown (.error fault : Except Fault α) := by
  intro fault' heq
  cases heq
  exact h

theorem SeverityKnown.bind {f : α → Except Fault β} (hr : SeverityKnown r)
    (hf : ∀ a, SeverityKnown (f a)) : SeverityKnown (r >>= f) := by
  cases r with
  | ok a => exact hf a
  | error fault => exact severityKnown_error (hr fault rfl)

theorem SeverityKnown.map {g : α → β} (hr : SeverityKnown r) : SeverityKnown (r.map g) := by
  cases r with
  | ok a => exact severityKnown_ok (g a)
  | error fault => exact severityKnown_error (hr fault rfl)

theorem severityKnown_mapM {f : α → Except Fault β} (hf : ∀ a, SeverityKnown (f a)) (xs : List α) :
    SeverityKnown (xs.mapM f) := by
  induction xs with
  | nil => exact severityKnown_ok []
  | cons x xs ih =>
    rw [List.mapM_cons]
    exact (hf x).bind fun y => ih.bind fun ys => severityKnown_ok (y :: ys)

end SeverityKnown

theorem Finding.severityKnown_toIssue (f : Finding) (workingDir : Text) :
    SeverityKnown (f.toIssue workingDir) := by
  have hposition : SeverityKnown f.position := by
    rw [position_eq]
    split
    · exact severityKnown_error rfl
    · exact severityKnown_ok f.place
  have hfingerprint (path description : Text) (p : Position) :
      SeverityKnown (Issue.fingerprintOf path p description) := by
    rw [Issue.fingerprintOf]
    split
    · split
      · exact severityKnown_ok _
      · exact severityKnown_error rfl
    · exact severityKnown_error rfl
  refine hposition.bind fun position => ?_
  rw [Issue.sealed, if_pos rfl]
  exact (hfingerprint _ _ _).bind fun fingerprint => severityKnown_ok _

namespace Ecs

theorem severityKnown_diffText (diff : Json) : SeverityKnown (diffText diff) := by
  unfold diffText
  dsimp only
  split
  · exact severityKnown_ok []
  · split
    · exact severityKnown_ok _
    · exact severityKnown_error rfl

theorem severityKnown_estimatedLine (diff : Text) : SeverityKnown (Output.estimatedLine diff) := by
  unfold Output.estimatedLine
  split
  · exact severityKnown_ok 1
  · split
    · exact severityKnown_ok _
    · exact severityKnown_error rfl

theorem severityKnown_checkers (diff : Json) : SeverityKnown (checkers diff) := by
  unfold checkers
  dsimp only
  split
  · exact severityKnown_ok []
  · split
    · exact severityKnown_ok _
    · exact severityKnown_ok _
    · exact severityKnown_ok _
    · exact severityKnown_error rfl

theorem severityKnown_diffIssues (workingDir : Text) (diff : Text × Json) :
    SeverityKnown (diffIssues workingDir diff) := by
  obtain ⟨file, diff⟩ := diff
  refine (severityKnown_diffText diff).bind fun text => ?_
  refine (severityKnown_estimatedLine text).bind fun line => ?_
  refine (severityKnown_checkers diff).bind fun found => ?_
  exact severityKnown_mapM
    (fun checker => (finding file line checker).severityKnown_toIssue workingDir) found

end Ecs

namespace Biome

variable (w : Workspace) (d sourceDir : Path)

theorem severityKnown_sourceIn (file : Json) : SeverityKnown (sourceIn w d sourceDir file) := by
  have hread (p : Path) : SeverityKnown (w.read d p) := by
    unfold Workspace.read
    split
    · exact severityKnown_error rfl
    · dsimp only
      split
      · exact severityKnown_ok _
      · exact severityKnown_ok _
  unfold sourceIn
  split
  · exact severityKnown_ok none
  · split
    · exact (hread _).map
    · exact severityKnown_error rfl

theorem severityKnown_linesIn (diagnostic : Diagnostic) :
    SeverityKnown (linesIn w d sourceDir diagnostic) := by
  unfold linesIn
  split
  · exact severityKnown_ok (1, none)
  · split
    · exact severityKnown_ok _
    · exact severityKnown_error rfl
  · exact (severityKnown_sourceIn w d sourceDir diagnostic.file).map

end Biome

namespace Tool

variable {w : Workspace} {d : Path}

theorem severityKnown_outcome (t : Tool) (s : Settings) (workingDir sourceDir : Path)
    (exitCode : Int) (output : Text) :
    SeverityKnown (value w d (t.outcome s workingDir sourceDir exitCode output)) := by
  have hfindings (decoded : Decoded Finding) :
      SeverityKnown (decoded.findingOutcome workingDir.toText output) := by
    rw [Decoded.findingOutcome_eq]
    exact (severityKnown_mapM (·.severityKnown_toIssue workingDir.toText) _).map
  cases t with
  | ecs =>
    change SeverityKnown (value w d (Action.ofExcept (Ecs.outcome workingDir.toText output)))
    rw [Action.value_ofExcept]
    exact (severityKnown_mapM (Ecs.severityKnown_diffIssues workingDir.toText) _).bind
      fun found => severityKnown_ok _
  | biome =>
    change SeverityKnown (value w d (Biome.outcome s.reporter _ _ _ _))
    cases s.reporter with
    | annotations =>
      rw [Biome.outcome, Action.value_ofExcept, Biome.annotationOutcome_eq]
      exact hfindings _
    | document =>
      rw [Biome.outcome, (Biome.hasEffect_documentOutcome _ _ _).value_eq]
      refine (severityKnown_mapM (fun diagnostic => ?_) _).bind fun issues => severityKnown_ok _
      exact (Biome.severityKnown_linesIn w d sourceDir diagnostic).bind
        fun lines => (diagnostic.finding lines).severityKnown_toIssue workingDir.toText
  | _ =>
    change SeverityKnown (value w d (Action.ofExcept (Decoded.findingOutcome _ _ _)))
    rw [Action.value_ofExcept]
    exact hfindings _

/-- Every issue that a tool's output amounts to represents a finding of the tool, and no output ends
a run in a severity that the report does not know. -/
theorem outcome_represents (t : Tool) (s : Settings) (workingDir sourceDir : Path) (exitCode : Int)
    (output : Text) (σ : Session) :
    (∀ issues τ, (t.outcome s workingDir sourceDir exitCode output).run σ = .ok (.ok issues) τ →
      ∀ issue ∈ issues, issue.Represents t workingDir.toText) ∧
    ∀ fault τ, (t.outcome s workingDir sourceDir exitCode output).run σ = .error fault τ →
      ∀ v, fault ≠ .unknownSeverity v := by
  have hquiet : Action.Quiet σ.workspace σ.directory (t.outcome s _ _ _ _) :=
    quiet_outcome s workingDir sourceDir t exitCode output
  constructor
  · intro issues τ hrun issue hissue
    obtain ⟨f, hf, hmade⟩ := exists_finding_of_outcome (hquiet.of_run hrun).1 hissue
    exact represents_of_finds hf hmade
  · rintro fault τ hrun v rfl
    have hknown : Fault.isSeverity (.unknownSeverity v) = false :=
      severityKnown_outcome t s workingDir sourceDir exitCode output _ (hquiet.of_run_error hrun)
    cases hknown

/-- A finding without any fields is an issue like all others. -/
theorem outcome_represents_psalm :
    ∃ s σ issue,
      (Settings.load none none []).run { workspace := {}, directory := ⟨.slash, []⟩ } = .ok s σ ∧
      (psalm.outcome s ⟨.slash, []⟩ ⟨.slash, []⟩ 0 (Text.ofChars ['[', '{', '}', ']'])).run σ =
        .ok (.ok [issue]) σ ∧
      issue.description = "Psalm: " ∧ issue.Represents psalm [.scalar '/'] := by
  obtain ⟨s, σ, hload⟩ : ∃ s σ, (Settings.load none none []).run
      { workspace := {}, directory := ⟨.slash, []⟩ } = .ok s σ := ⟨_, _, rfl⟩
  let output := Text.ofChars ['[', '{', '}', ']']
  have hroot : (⟨.slash, []⟩ : Path).toText = [.scalar '/'] := rfl
  have hfindings : psalm.findings 0 output = ⟨[Psalm.finding (.object [])], true⟩ := rfl
  obtain ⟨issue, hmade, hdescription⟩ : ∃ issue,
      (Psalm.finding (.object [])).toIssue [.scalar '/'] = .ok issue ∧
        issue.description = "Psalm: " :=
    ⟨_, Finding.Harmless.toIssue_eq ⟨by decide, by decide⟩
      (Finding.forall_parts.mpr ⟨.null, .null, .null, .null⟩), rfl⟩
  have hrun : (psalm.outcome s ⟨.slash, []⟩ ⟨.slash, []⟩ 0 output).run σ = .ok (.ok [issue]) σ := by
    rw [@outcome_eq s ⟨.slash, []⟩ ⟨.slash, []⟩ psalm 0 output nofun nofun, hfindings, hroot,
      Decoded.findingOutcome_eq, List.mapM_cons, hmade]
    rfl
  have hrepresents := (outcome_represents psalm s ⟨.slash, []⟩ ⟨.slash, []⟩ 0 output σ).1
  exact ⟨s, σ, issue, hload, hrun, hdescription, hrepresents _ _ hrun issue List.mem_cons_self⟩

end Tool

end LintReport
