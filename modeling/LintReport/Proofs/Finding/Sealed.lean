import LintReport.Proofs.Finding.Outcome
import LintReport.Proofs.Json.Token

/-!
Issues are sealed when they are made. Every issue that a tool's output amounts to was made of one of
the tool's findings, so what holds for all issues of findings holds for it: the fingerprint holds
the position, so the position can be written.
-/
namespace LintReport

open LintReport.Action (value)

/-- An issue whose position can be written. -/
def Issue.IsWritable (issue : Issue) : Prop := issue.location.position.isWritable = true

theorem Issue.isWritable_of_fingerprintOf {path description fingerprint : Text} {p : Position}
    (h : fingerprintOf path p description = .ok fingerprint) : p.isWritable = true := by
  unfold fingerprintOf at h
  split at h
  · next hwritable => exact hwritable
  · cases h

theorem Issue.isWritable_of_sealed {issue issue' : Issue} (h : issue.sealed = .ok issue')
    (hnone : issue.fingerprint = []) : issue'.IsWritable := by
  rw [sealed, if_pos hnone] at h
  obtain ⟨fingerprint, hfingerprint, heq⟩ := bind_eq_ok h
  cases heq
  exact isWritable_of_fingerprintOf hfingerprint

theorem Finding.isWritable_of_toIssue {f : Finding} {workingDir : Text} {issue : Issue}
    (h : f.toIssue workingDir = .ok issue) : issue.IsWritable := by
  obtain ⟨position, hposition, hsealed⟩ := bind_eq_ok h
  exact Issue.isWritable_of_sealed hsealed rfl

/-- The issues of an outcome are among those that were reported. -/
theorem AllOrNothing.exists_reported {output : Text} {document : Option Json} {fits : Json → Bool}
    {reported : Json → List (Except Fault Issue)} {issues : List Issue} {issue : Issue}
    (h : AllOrNothing output document fits reported (.ok issues)) (hissue : issue ∈ issues) :
    ∃ v, .ok issue ∈ reported v := by
  by_cases hdocument : ∃ v, document = some v ∧ fits v = true
  · obtain ⟨v, hv, hfits⟩ := hdocument
    obtain ⟨issues', heq, hreported⟩ := h.all v hv hfits
    cases heq
    exact ⟨v, hreported ▸ List.mem_map_of_mem hissue⟩
  · have hfailed := h.nothing fun v hv => by
      cases hfits : fits v with
      | false => rfl
      | true => exact absurd ⟨v, hv, hfits⟩ hdocument
    cases hfailed

namespace Tool

variable {w : Workspace} {d : Path} {s : Settings} {workingDir sourceDir : Path} {t : Tool}
  {exitCode : Int} {output : Text} {issue : Issue}

theorem mem_of_ok_mem_spread {r : Except Fault (List Issue)} (h : .ok issue ∈ spread r) :
    ∃ issues, r = .ok issues ∧ issue ∈ issues := by
  cases r with
  | error fault => cases List.mem_singleton.mp h
  | ok issues =>
    obtain ⟨issue', hmem, heq⟩ := List.mem_map.mp h
    exact ⟨issues, rfl, Except.ok.inj heq ▸ hmem⟩

theorem exists_of_mem_mapM {α : Type} {f : α → Finding} {workingDir : Text} {xs : List α}
    {issues : List Issue} (h : xs.mapM (fun x => (f x).toIssue workingDir) = .ok issues)
    (hissue : issue ∈ issues) : ∃ x, (f x).toIssue workingDir = .ok issue := by
  have hmem : Except.ok issue ∈ xs.map fun x => (f x).toIssue workingDir := by
    rw [map_eq_of_mapM_eq_ok h]
    exact List.mem_map_of_mem hissue
  obtain ⟨x, -, hx⟩ := List.mem_map.mp hmem
  exact ⟨x, hx⟩

/-- The findings that a tool can report. -/
def Finds (t : Tool) (f : Finding) : Prop :=
  match t with
  | .psalm => ∃ entry, f = Psalm.finding entry
  | .phpStan => ∃ file message, f = PhpStan.finding file message
  | .phpCs => ∃ file message, f = PhpCs.finding file message
  | .ecs => ∃ file line checker, f = Ecs.finding file line checker
  | .esLint => ∃ entry message, f = EsLint.finding entry message
  | .styleLint => ∃ entry warning, f = StyleLint.finding entry warning
  | .biome => (∃ a, f = Biome.annotationFinding a) ∨
      ∃ d lines, f = Biome.Diagnostic.finding d lines

theorem exists_finding_of_mem_reported {path : Text} {v : Json}
    (h : .ok issue ∈ t.reported w d path sourceDir v) :
    ∃ f, t.Finds f ∧ f.toIssue path = .ok issue := by
  cases t with
  | psalm =>
    obtain ⟨entry, -, hissue⟩ := List.mem_map.mp h
    exact ⟨_, ⟨entry, rfl⟩, hissue⟩
  | ecs =>
    obtain ⟨⟨file, diff⟩, -, hspread⟩ := List.mem_flatMap.mp h
    obtain ⟨issues, hissues, hmem⟩ := mem_of_ok_mem_spread hspread
    obtain ⟨text, -, hissues⟩ := bind_eq_ok hissues
    obtain ⟨line, -, hissues⟩ := bind_eq_ok hissues
    obtain ⟨checkers, -, hissues⟩ := bind_eq_ok hissues
    obtain ⟨checker, hissue⟩ := exists_of_mem_mapM hissues hmem
    exact ⟨_, ⟨file, line, checker, rfl⟩, hissue⟩
  | biome =>
    obtain ⟨entry, -, hissue⟩ := List.mem_map.mp h
    obtain ⟨lines, -, hissue⟩ := bind_eq_ok hissue
    exact ⟨_, Or.inr ⟨_, lines, rfl⟩, hissue⟩
  | _ =>
    obtain ⟨⟨place, record⟩, -, hissue⟩ := List.mem_map.mp h
    exact ⟨_, ⟨place, record, rfl⟩, hissue⟩

theorem exists_finding_of_annotationOutcome {path : Text} {issues : List Issue}
    (h : Biome.annotationOutcome path output exitCode = .ok (.ok issues))
    (hissue : issue ∈ issues) : ∃ f, biome.Finds f ∧ f.toIssue path = .ok issue := by
  unfold Biome.annotationOutcome at h
  split at h
  · split at h
    · cases h
    · cases h
      cases hissue
  · obtain ⟨issues', hissues, heq⟩ := Json.map_eq_ok h
    cases heq
    obtain ⟨a, hissue⟩ := exists_of_mem_mapM hissues hissue
    exact ⟨_, Or.inl ⟨a, rfl⟩, hissue⟩

/-- Every issue that an output amounts to is the issue of a finding of the tool. -/
theorem exists_finding_of_outcome {issues : List Issue}
    (h : value w d (t.outcome s workingDir sourceDir exitCode output) = .ok (.ok issues))
    (hissue : issue ∈ issues) : ∃ f, t.Finds f ∧ f.toIssue workingDir.toText = .ok issue := by
  have hdocument (hreporter : t = .biome → s.reporter = .document) :
      ∃ f, t.Finds f ∧ f.toIssue workingDir.toText = .ok issue := by
    obtain ⟨α, decoded, found, build, hdecodes, hvalue, hreported⟩ :=
      exists_decoding w d s workingDir sourceDir exitCode output hreporter
    have hout := hdecodes.allOrNothing (hvalue ▸ h)
    rw [← funext hreported] at hout
    obtain ⟨v, hmem⟩ := hout.exists_reported hissue
    exact exists_finding_of_mem_reported hmem
  cases hr : s.reporter with
  | document => exact hdocument fun _ => hr
  | annotations =>
    by_cases ht : t = .biome
    · subst ht
      change value w d (Biome.outcome s.reporter _ _ _ _) = _ at h
      rw [hr] at h
      exact exists_finding_of_annotationOutcome ((Action.value_ofExcept _).symm.trans h) hissue
    · exact hdocument fun hbiome => absurd hbiome ht

/-- Whatever a tool prints, the issues that it amounts to can be written. -/
theorem isWritable_of_outcome {issues : List Issue}
    (h : value w d (t.outcome s workingDir sourceDir exitCode output) = .ok (.ok issues))
    (hissue : issue ∈ issues) : issue.IsWritable := by
  obtain ⟨f, -, hf⟩ := exists_finding_of_outcome h hissue
  exact Finding.isWritable_of_toIssue hf

end Tool

end LintReport
