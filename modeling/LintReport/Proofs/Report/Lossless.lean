import LintReport.Proofs.Report.Layout

/-!
Reports hold all that their issues hold. A report is the JSON text of its issues with a tab a level,
and the issues can be found in it again, whatever their texts are.
-/
namespace LintReport

namespace Json

/-- The text that a value is. -/
def text? : Json → Option Text
  | string s => some s
  | _ => none

/-- The whole number that a value is. -/
def whole? : Json → Option Int
  | int n => some n
  | _ => none

/-- The items of the array that a value is. -/
def array? : Json → Option (List Json)
  | array items => some items
  | _ => none

end Json

theorem mapM_of_left_inverse {α β : Type} {f : α → β} {g : β → Option α}
    (h : ∀ a, g (f a) = some a) (as : List α) : (as.map f).mapM g = some as := by
  induction as with
  | nil => rfl
  | cons a as ih =>
    rw [List.map_cons, List.mapM_cons, h a, ih]
    rfl

/-! ### Issues from their JSON values -/

namespace Position

/-- The position that a report tells. -/
def ofJson? (v : Json) : Option Position := do
  let start := v.member "begin"
  let stop := v.member "end"
  let line ← (start.member "line").whole?
  return { line, column := (start.member "column").whole?,
           endLine := (stop.member "line").whole?, endColumn := (stop.member "column").whole? }

theorem ofJson?_toJson (p : Position) : ofJson? p.toJson = some p := by
  obtain ⟨line, column, endLine, endColumn⟩ := p
  cases column <;> cases endLine <;> cases endColumn <;> rfl

theorem writable_part (name : Text) {part : Option Int}
    (h : part.elim 0 Int.natAbs < Nat.pow 10 maxDigits) :
    ∀ m ∈ Position.part name part, m.2.Writable := by
  intro m hm
  cases part with
  | none => cases hm
  | some n =>
    rw [List.mem_singleton.mp hm]
    exact .int h

theorem nodup_parts (line column : Option Int) :
    ((part "line" line ++ part "column" column).map Prod.fst).Nodup := by
  have hnames : List.Nodup [Text.ofString "line", Text.ofString "column"] := by decide
  refine hnames.sublist ?_
  rw [List.map_append]
  have hpart (name : Text) (n : Option Int) : ((part name n).map Prod.fst).Sublist [name] := by
    cases n with
    | none => exact List.nil_sublist _
    | some n => exact List.Sublist.refl _
  exact (hpart "line" line).append (hpart "column" column)

theorem writable_toJson {p : Position} (h : p.isWritable = true) : p.toJson.Writable := by
  obtain ⟨line, column, endLine, endColumn⟩ := p
  simp only [isWritable, List.all_cons, List.all_nil, Bool.and_true, Bool.and_eq_true,
    decide_eq_true_eq] at h
  obtain ⟨hline, hcolumn, hendLine, hendColumn⟩ := h
  have hside {line column : Option Int} (hline : line.elim 0 Int.natAbs < Nat.pow 10 maxDigits)
      (hcolumn : column.elim 0 Int.natAbs < Nat.pow 10 maxDigits) :
      (Json.object (part "line" line ++ part "column" column)).Writable :=
    .object (nodup_parts line column) fun m hm =>
      (List.mem_append.mp hm).elim (writable_part "line" hline m) (writable_part "column" hcolumn m)
  have hstart := @hside (some line) column hline hcolumn
  have hnames : List.Nodup [Text.ofString "begin", Text.ofString "end"] := by decide
  rw [toJson]
  split
  · exact .object (hnames.sublist (by simp)) (by simpa using hstart)
  · exact .object hnames (by simpa using ⟨hstart, hside hendLine hendColumn⟩)

end Position

namespace Issue

/-- The issue that an entry of a report tells. -/
def ofJson? (v : Json) : Option Issue := do
  let location := v.member "location"
  return { checkName := ← (v.member "check_name").text?
           description := ← (v.member "description").text?
           severity := ← (v.member "severity").text?.bind Severity.ofName?
           location :=
             { path := ← (location.member "path").text?
               fullPath := ← (location.member "full_path").text?
               position := ← Position.ofJson? (location.member "positions") }
           categories := ← (v.member "categories").array?.bind (·.mapM Json.text?)
           kind := ← (v.member "type").text?
           fingerprint := ← (v.member "fingerprint").text? }

theorem ofJson?_toJson (issue : Issue) : ofJson? issue.toJson = some issue := by
  have hposition := Position.ofJson?_toJson issue.location.position
  have hseverity := Severity.ofName?_name issue.severity
  have hcategories : (issue.categories.map Json.string).mapM Json.text? = some issue.categories :=
    mapM_of_left_inverse (f := Json.string) (fun _ => rfl) issue.categories
  unfold ofJson?
  change (do
    let severity ← Severity.ofName? issue.severity.name
    let position ← Position.ofJson? issue.location.position.toJson
    let categories ← (issue.categories.map Json.string).mapM Json.text?
    return { issue with
      severity, categories, location := { issue.location with position } }) = some issue
  rw [hseverity, hposition, hcategories]
  rfl

theorem writable_toJson {issue : Issue} (h : issue.location.position.isWritable = true) :
    issue.toJson.Writable := by
  have hnames : List.Nodup [Text.ofString "type", Text.ofString "check_name",
      Text.ofString "description", Text.ofString "categories", Text.ofString "severity",
      Text.ofString "location", Text.ofString "fingerprint"] := by decide
  have hlocation : List.Nodup [Text.ofString "path", Text.ofString "full_path",
      Text.ofString "positions"] := by decide
  have hcategories : (Json.array (issue.categories.map .string)).Writable := by
    refine .array fun v hv => ?_
    obtain ⟨s, -, rfl⟩ := List.mem_map.mp hv
    exact .string s
  refine .object hnames ?_
  simp only [List.forall_mem_cons, List.not_mem_nil, false_implies, implies_true, and_true]
  refine ⟨.string _, .string _, .string _, hcategories, .string _, .object hlocation ?_, .string _⟩
  simp only [List.forall_mem_cons, List.not_mem_nil, false_implies, implies_true, and_true]
  exact ⟨.string _, .string _, Position.writable_toJson h⟩

end Issue

namespace Report

/-- The issues that a report tells. -/
def ofJson? (v : Json) : Option (List Issue) := v.array?.bind (·.mapM Issue.ofJson?)

theorem ofJson?_toJson (issues : List Issue) : ofJson? (toJson issues) = some issues :=
  mapM_of_left_inverse Issue.ofJson?_toJson issues

section Document

variable {issues : List Issue} (h : ∀ issue ∈ issues, issue.location.position.isWritable = true)

include h

theorem writable_toJson : (toJson issues).Writable := by
  refine .array fun v hv => ?_
  obtain ⟨issue, hissue, rfl⟩ := List.mem_map.mp hv
  exact Issue.writable_toJson (h issue hissue)

/-- A report is the text of its issues with a tab a level. -/
theorem document_eq_pretty : document issues = (toJson issues).pretty tab 0 :=
  tabbed_pretty (writable_toJson h)

theorem read_document : Json.read (document issues) = .ok (toJson issues) := by
  rw [document_eq_pretty h]
  exact (writable_toJson h).read_pretty (by decide)

/-- A report is also read as it was with a line feed behind it. -/
theorem read_document_feed :
    Json.read (document issues ++ [.scalar '\n']) = .ok (toJson issues) := by
  rw [document_eq_pretty h]
  exact (writable_toJson h).read_pretty_append (by decide) (by decide)
    (Json.delimits_cons (by decide) [])

/-- Nothing is lost in a report. Its lines are indented with tabs alone, it is read as the values of
its issues, and no other issues have the same report. -/
theorem document_lossless :
    document issues = (toJson issues).pretty tab 0 ∧
    (∀ line ∈ Text.fields (.scalar '\n') (document issues), ∀ c ∈ line.head?, c ≠ .scalar ' ') ∧
    Json.read (document issues) = .ok (toJson issues) ∧
    ofJson? (toJson issues) = some issues ∧
    ∀ issues' : List Issue,
      (∀ issue ∈ issues', issue.location.position.isWritable = true) →
      document issues' = document issues → issues' = issues := by
  refine ⟨document_eq_pretty h, ?_, read_document h, ofJson?_toJson issues, ?_⟩
  · rw [document_eq_pretty h]
    exact head_of_mem_fields (writable_toJson h)
  · intro issues' h' heq
    have hread := read_document h'
    rw [heq, read_document h] at hread
    have hvalues := congrArg ofJson? (Except.ok.inj hread)
    rw [ofJson?_toJson, ofJson?_toJson] at hvalues
    exact (Option.some.inj hvalues).symm

end Document

/-- An issue whose description looks like the start of an indented line. -/
def spacedIssue : Issue where
  checkName := "EsLint.indent"
  description := "\"\n        four\t\\"
  severity := .minor
  location :=
    { path := "a.js", fullPath := "/app/a.js", position := { line := 3, endColumn := some 7 } }
  fingerprint := "f"

theorem document_lossless_spaced :
    Json.read (document [spacedIssue]) = .ok (toJson [spacedIssue]) ∧
    ∀ issues' : List Issue,
      (∀ issue ∈ issues', issue.location.position.isWritable = true) →
      document issues' = document [spacedIssue] → issues' = [spacedIssue] := by
  have hwritable : ∀ issue ∈ [spacedIssue], issue.location.position.isWritable = true := by
    decide +kernel
  obtain ⟨-, -, hread, -, hinjective⟩ := document_lossless hwritable
  exact ⟨hread, hinjective⟩

end Report

end LintReport
