import LintReport.Proofs.Finding.Represented
import LintReport.Proofs.Text.LetterCase

/-!
Critical issues. Whether an issue is critical depends on nothing but the word that the tool used for
its severity, and on the kind of the finding where a tool says more by that. Two of the tools do not
say how much a finding matters, so no issue of theirs is critical.
-/
namespace LintReport

open LintReport.Action (value)

/-! ### Words -/

/-- A text that says "critical", whatever its case and the blanks around it. -/
def Json.SaysCritical (v : Json) : Prop :=
  ∃ word, v = .string word ∧ word.trimBlanks.lower = "critical"

theorem Severity.ofWord?_eq_critical {word : Text} :
    ofWord? word = some critical ↔ word.trimBlanks.lower = "critical" := by
  unfold ofWord?
  dsimp only
  generalize word.trimBlanks.lower = key
  constructor
  · intro h
    split at h
    · next name severity hfind =>
      cases h
      have hmem := List.mem_of_find?_eq_some hfind
      simp [aliases] at hmem
    · have hname := List.find?_some h
      exact (of_decide_eq_true hname).symm
  · rintro rfl
    decide

theorem Severity.ofJson_eq_critical {v : Json} : ofJson v = critical ↔ v.SaysCritical := by
  unfold ofJson Json.SaysCritical
  split
  · simp
  · simp
  · next word =>
    have hword : ofWord? word = some critical ↔ _ := ofWord?_eq_critical
    cases h : ofWord? word with
    | none => simp [← hword, h]
    | some severity => simp [← hword, h]
  · next hnot =>
    simp only [reduceCtorEq, false_iff]
    rintro ⟨word, rfl, -⟩
    exact hnot word rfl

theorem Psalm.ofJson_severity_eq_critical {entry : Json} :
    Severity.ofJson (severity entry) = .critical ↔
      entry.member "type" = .string "ParseError" ∨ (entry.member "severity").SaysCritical := by
  rw [← Severity.ofJson_eq_critical]
  unfold severity
  split
  · next kind hkind =>
    by_cases hparse : kind = Text.ofString "ParseError"
    · subst hparse
      simp only [hkind, if_true, true_or, iff_true]
      decide
    · simp [hkind, hparse]
  · next hnot =>
    have hne : entry.member "type" ≠ .string "ParseError" := fun h => hnot _ h
    simp [hne]

theorem Json.saysCritical_string {word : Text} :
    (Json.string word).SaysCritical ↔ word.trimBlanks.lower = "critical" := by
  constructor
  · rintro ⟨word', heq, h⟩
    cases heq
    exact h
  · exact fun h => ⟨word, rfl, h⟩

/-- The words that only Biome knows come first, and none of them hides a critical one. -/
theorem Biome.ofJson_severity_eq_critical {v : Json} :
    Severity.ofJson (severity v) = .critical ↔
      ∃ word, v = .string word ∧ (word.lower = "fatal" ∨ word.lower.trimBlanks = "critical") := by
  cases v with
  | string word =>
    have hiff : (∃ word', Json.string word = .string word' ∧
        (word'.lower = "fatal" ∨ word'.lower.trimBlanks = "critical")) ↔
          (word.lower = "fatal" ∨ word.lower.trimBlanks = "critical") := by simp
    rw [hiff]
    cases hfind : severityNames.find? fun n => n.1 = word.lower with
    | none =>
      have hfatal : word.lower ≠ "fatal" := by
        have hnot := List.find?_eq_none.mp hfind ("fatal", "critical") (by decide)
        exact fun h => hnot (decide_eq_true h.symm)
      simp only [severity, hfind, Severity.ofJson_eq_critical, Json.saysCritical_string,
        Text.trimBlanks_lower, hfatal, false_or]
    | some entry =>
      have hfound := List.find?_some hfind
      have hlower : entry.1 = word.lower := of_decide_eq_true hfound
      have hmem := List.mem_of_find?_eq_some hfind
      have hseverity : severity (.string word) = .string entry.2 := by simp only [severity, hfind]
      rw [hseverity, ← hlower]
      simp only [severityNames, List.mem_cons, List.not_mem_nil, or_false] at hmem
      rcases hmem with rfl | rfl | rfl <;> decide
  | _ => simp [severity, Severity.ofJson_eq_critical, Json.SaysCritical]

/-! ### What a tool says about its findings -/

/-- What a tool says about how much a finding matters. -/
structure Remark where
  kind : Json
  severity : Json

/-- The remark in a record of a document. -/
def Remark.ofRecord (record : Json) : Remark := ⟨record.member "type", record.member "severity"⟩

namespace Tool

/-- Does a remark make an issue of the tool critical? -/
def FindsCritical (t : Tool) (r : Remark) : Prop :=
  match t with
  | psalm => r.kind = .string "ParseError" ∨ r.severity.SaysCritical
  | phpCs => r.kind.SaysCritical
  | esLint | styleLint => r.severity.SaysCritical
  | biome => ∃ word, r.severity = .string word ∧
      (word.lower = "fatal" ∨ word.lower.trimBlanks = "critical")
  | phpStan | ecs => False

/-- The records that the findings in a document were made of. -/
def records (t : Tool) (document : Json) : List Json :=
  match t with
  | psalm => document.items
  | phpStan | phpCs => (document.byFile "messages").map Prod.snd
  | ecs => (document.byFile "diffs").flatMap fun diff => (Ecs.checkers diff.2).toOption.getD []
  | esLint => (document.byEntry "messages").map Prod.snd
  | styleLint => (document.byEntry "warnings").map Prod.snd
  | biome => (document.member "diagnostics").items

/-- What a tool says about the findings in an output. -/
def remarks (t : Tool) (reporter : Biome.Reporter) (output : Text) : List Remark :=
  if t = .biome ∧ reporter = .annotations then
    (Output.Annotation.parseAll output).map fun a => ⟨.null, .string a.severity⟩
  else
    match Output.document? (t.documentText output) with
    | some document => (t.records document).map Remark.ofRecord
    | none => []

/-- A severity as a tool gives it to a finding with a remark. -/
structure Weighs (t : Tool) (r : Remark) (severity : Severity) : Prop where
  critical_iff : severity = .critical ↔ t.FindsCritical r
  phpStan : t = .phpStan → severity = .major
  ecs : t = .ecs → severity = .minor

theorem weighs_of_iff {t : Tool} {r : Remark} {severity : Severity}
    (h : severity = .critical ↔ t.FindsCritical r) (hphpStan : t ≠ .phpStan) (hecs : t ≠ .ecs) :
    t.Weighs r severity := ⟨h, fun h => absurd h hphpStan, fun h => absurd h hecs⟩

end Tool

/-! ### Issues of a document -/

theorem Finding.severity_of_toIssue {f : Finding} {workingDir : Text} {issue : Issue}
    (h : f.toIssue workingDir = .ok issue) : issue.severity = Severity.ofJson f.severity := by
  rw [Finding.eq_tolerated_of_toIssue h]
  rfl

section Spread

open Tool (spread)

variable {α β : Type} {R : β → Issue → Prop}

/-- Where nothing but issues was spread out, every part gave some of them. -/
theorem forall₂_of_spread {f : α → Except Fault (List Issue)} {g : α → List β} {xs : List α}
    {issues : List Issue} (h : (xs.flatMap fun x => spread (f x)) = issues.map .ok)
    (hf : ∀ x found, f x = .ok found → List.Forall₂ R (g x) found) :
    List.Forall₂ R (xs.flatMap g) issues := by
  induction xs generalizing issues with
  | nil =>
    rw [List.map_eq_nil_iff.mp h.symm]
    exact .nil
  | cons x xs ih =>
    rw [List.flatMap_cons] at h
    obtain ⟨found, rest, rfl, hfound, hrest⟩ := List.map_eq_append_iff.mp h.symm
    rw [List.flatMap_cons]
    refine List.rel_append ?_ (ih hrest.symm)
    cases hx : f x with
    | ok found' =>
      rw [hx] at hfound
      have hsame : found = found' :=
        (List.map_inj_right fun _ _ h => Except.ok.inj h).mp hfound
      exact hsame ▸ hf x found' hx
    | error fault =>
      rw [hx] at hfound
      obtain ⟨issue, -, hissue⟩ := List.map_eq_singleton_iff.mp hfound
      cases hissue

theorem forall₂_of_map {f : α → Except Fault Issue} {g : α → β} {xs : List α}
    {issues : List Issue} (h : xs.map f = issues.map .ok)
    (hf : ∀ x issue, f x = .ok issue → R (g x) issue) : List.Forall₂ R (xs.map g) issues := by
  have hmade : List.Forall₂ Eq (xs.map f) (issues.map .ok) := by
    rw [List.forall₂_eq_eq_eq]
    exact h
  rw [List.forall₂_map_left_iff, List.forall₂_map_right_iff] at hmade
  exact List.forall₂_map_left_iff.mpr (hmade.imp fun x issue => hf x issue)

end Spread

namespace Tool

variable {w : Workspace} {d : Path} {s : Settings} {workingDir sourceDir : Path} {t : Tool}
  {exitCode : Int} {output : Text} {issues : List Issue}

theorem weighs_ecs {file : Text} {line : Nat} (checker : Json) :
    ecs.Weighs (.ofRecord checker) (Severity.ofJson (Ecs.finding file line checker).severity) where
  critical_iff := by
    change Severity.ofJson (.string "minor") = .critical ↔ False
    decide
  phpStan := nofun
  ecs _ := by
    change Severity.ofJson (.string "minor") = .minor
    decide

theorem weighs_phpStan {file : Text} (message : Json) :
    phpStan.Weighs (.ofRecord message)
      (Severity.ofJson (PhpStan.finding file message).severity) where
  critical_iff := by
    change Severity.ofJson (.string "major") = .critical ↔ False
    decide
  phpStan _ := by
    change Severity.ofJson (.string "major") = .major
    decide
  ecs := nofun

theorem Ecs.forall₂_weighs {workingDir file : Text} {diff : Json}
    (h : Ecs.diffIssues workingDir (file, diff) = .ok issues) :
    List.Forall₂ (fun r issue => ecs.Weighs r issue.severity)
      (((Ecs.checkers diff).toOption.getD []).map Remark.ofRecord) issues := by
  obtain ⟨text, -, h⟩ := bind_eq_ok h
  obtain ⟨line, -, h⟩ := bind_eq_ok h
  obtain ⟨checkers, hcheckers, h⟩ := bind_eq_ok h
  rw [hcheckers]
  refine forall₂_of_map (map_eq_of_mapM_eq_ok h) fun checker issue hissue => ?_
  rw [Finding.severity_of_toIssue hissue]
  exact weighs_ecs checker

/-- Every issue of a document has the severity that the remark in its record asks for. -/
theorem forall₂_weighs_of_reported {v : Json} {workingDir : Text}
    (h : t.reported w d workingDir sourceDir v = issues.map .ok) :
    List.Forall₂ (fun r issue => t.Weighs r issue.severity)
      ((t.records v).map Remark.ofRecord) issues := by
  have hmade {r : Remark} {f : Finding} {issue : Issue} (hissue : f.toIssue workingDir = .ok issue)
      (hweighs : t.Weighs r (Severity.ofJson f.severity)) : t.Weighs r issue.severity := by
    rw [Finding.severity_of_toIssue hissue]
    exact hweighs
  cases t with
  | psalm =>
    exact forall₂_of_map h fun entry issue hissue => hmade hissue
      (weighs_of_iff Psalm.ofJson_severity_eq_critical nofun nofun)
  | phpStan =>
    rw [records, List.map_map]
    exact forall₂_of_map h fun record issue hissue => hmade hissue (weighs_phpStan record.2)
  | phpCs | esLint | styleLint =>
    rw [records, List.map_map]
    exact forall₂_of_map h fun record issue hissue => hmade hissue
      (weighs_of_iff Severity.ofJson_eq_critical nofun nofun)
  | ecs =>
    rw [records, List.map_flatMap]
    exact forall₂_of_spread h fun diff found hfound => Ecs.forall₂_weighs hfound
  | biome =>
    refine forall₂_of_map h fun entry issue hissue => ?_
    obtain ⟨lines, -, hissue⟩ := bind_eq_ok hissue
    exact hmade hissue (weighs_of_iff Biome.ofJson_severity_eq_critical nofun nofun)

/-- Every issue of an output has the severity that the remark about its finding asks for. -/
theorem forall₂_weighs
    (h : value w d (t.outcome s workingDir sourceDir exitCode output) = .ok (.ok issues)) :
    List.Forall₂ (fun r issue => t.Weighs r issue.severity)
      (t.remarks s.reporter output) issues := by
  unfold remarks
  split
  · next hannotations =>
    obtain ⟨rfl, hreporter⟩ := hannotations
    rw [outcome_eq (t := .biome) nofun fun _ => hreporter, Action.value_ofExcept,
      Decoded.findingOutcome_eq] at h
    obtain ⟨found, hfound, hissues⟩ := Json.map_eq_ok h
    split at hissues
    · cases hissues
      have hmade := map_eq_of_mapM_eq_ok hfound
      rw [show (biome.findings exitCode output).items =
        (Output.Annotation.parseAll output).map Biome.annotationFinding from rfl,
        List.map_map] at hmade
      refine forall₂_of_map hmade fun a issue hissue => ?_
      rw [Finding.severity_of_toIssue hissue]
      have hiff := Biome.ofJson_severity_eq_critical (v := .string a.severity)
      exact weighs_of_iff hiff nofun nofun
    · cases hissues
  · next hdocument =>
    have hreporter : t = .biome → s.reporter = .document := by
      intro ht
      cases hr : s.reporter with
      | annotations => exact absurd ⟨ht, hr⟩ hdocument
      | document => rfl
    obtain ⟨α, decoded, found, build, hdecodes, hvalue, hreported⟩ :=
      exists_decoding w d s workingDir sourceDir exitCode output hreporter
    have hall := hdecodes.allOrNothing (hvalue ▸ h)
    cases hread : Output.document? (t.documentText output) with
    | none => cases hall.nothing (by rw [hread]; nofun)
    | some v =>
      cases hfits : t.fits v with
      | false => cases hall.nothing fun v' hv' => by cases hread.symm.trans hv'; exact hfits
      | true =>
        obtain ⟨issues', heq, hissues⟩ := hall.all v hread hfits
        cases heq
        exact forall₂_weighs_of_reported ((hreported v).trans hissues)

end Tool

end LintReport
