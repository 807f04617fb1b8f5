import LintReport.Proofs.Finding.Tolerated
import LintReport.Proofs.Output.Document
import LintReport.Proofs.Output.Excision

/-!
Outcomes without echoed sources. Where all that is cut out of a document consists of members that
are not used, every entry and every finding stays where it was, and each finding makes the issue
that it made before.
-/
namespace LintReport

open Json (Cuttable Thinned Whole)
open Output (excisedTexts withoutBanner withoutSources sourceOpening sourceClosing)

/-! ### Thinned documents -/

namespace Json

variable {kept : List Text} {name : Text} {v v' : Json}

theorem Thinned.isObject_eq (h : Thinned kept v v') : v'.isObject = v.isObject := by
  cases h <;> rfl

theorem Thinned.isRecordList_eq (h : Thinned kept v v') :
    v'.isRecordList = v.isRecordList := by
  cases h with
  | array h =>
    have hobjects := map_eq_of_forall₂ h fun v _ v' h => h.isObject_eq
    simpa only [isRecordList, List.all_map, Function.comp_def, id_eq] using
      congrArg (List.all · id) hobjects
  | _ => rfl

theorem Thinned.forall₂_items (h : Thinned kept v v') :
    List.Forall₂ (Thinned kept) v.items v'.items := by
  cases h with
  | same => exact List.forall₂_same.mpr fun v _ => .same v
  | array h => exact h
  | object => exact .nil
  | cut => exact .nil

theorem Thinned.isEntry_eq (h : Thinned kept v v') (hname : name ∈ kept) :
    v'.isEntry name = v.isEntry name := by
  rw [isEntry, isEntry, h.isObject_eq, (h.member hname).isRecordList_eq]

theorem Thinned.known_eq (h : Thinned kept v v') : Position.known v' = Position.known v := by
  cases h <;> rfl

theorem Thinned.severity_eq (h : Thinned kept v v') :
    Severity.ofJson v' = Severity.ofJson v := by
  cases h <;> rfl

end Json

/-! ### Findings -/

theorem Finding.toIssue_congr {f g : Finding} (workingDir : Text) (hpath : g.path = f.path)
    (hdescription : g.description = f.description) (hrule : g.rule = f.rule)
    (hseverity : Severity.ofJson g.severity = Severity.ofJson f.severity)
    (hposition : g.position = f.position) : g.toIssue workingDir = f.toIssue workingDir := by
  simp only [toIssue, hpath, hdescription, hrule, hseverity, hposition]

namespace Decoded

variable {α β γ : Type}

theorem map_map (f : α → β) (g : β → γ) (d : Decoded α) : (d.map f).map g = d.map (g ∘ f) :=
  congrArg (Decoded.mk · d.intact) (List.map_map ..)

theorem map_ofEntries (f : α → β) (entries : List (Option (List α))) :
    (ofEntries entries).map f = ofEntries (entries.map (Option.map (List.map f))) := by
  fun_induction ofEntries entries with
  | case1 => rfl
  | case2 => rfl
  | case3 items entries rest ih =>
    rw [List.map_cons, Option.map_some, ofEntries, ← ih]
    exact congrArg (Decoded.mk · _) List.map_append

/-- An outcome is that of the issues of the findings. -/
theorem findingOutcome_congr {workingDir output : Text} {d d' : Decoded Finding}
    (h : d.map (Finding.toIssue workingDir) = d'.map (Finding.toIssue workingDir)) :
    d.findingOutcome workingDir output = d'.findingOutcome workingDir output := by
  obtain ⟨hitems, hintact⟩ := Decoded.mk.inj h
  rw [findingOutcome_eq, findingOutcome_eq, ← Function.id_comp (Finding.toIssue workingDir),
    ← List.mapM_map, ← List.mapM_map, hitems, hintact]

end Decoded

namespace EsLint

/-- The names of the members that findings are made of. -/
def usedNames : List Text :=
  ["filePath", "messages", "message", "ruleId", "severity", "line", "column", "endLine",
    "endColumn"]

/-- No object with a source is shown in the issues of an entry. -/
structure ShowsNoSource (entry : Json) : Prop where
  path : Whole (entry.member "filePath")
  message : ∀ message ∈ (entry.member "messages").items, Whole (message.member "message")
  rule : ∀ message ∈ (entry.member "messages").items, Whole (message.member "ruleId")

variable {entry entry' message message' : Json} {entries entries' : List Json}

theorem toIssue_thinned (workingDir : Text) (hentry : Thinned usedNames entry entry')
    (hmessage : Thinned usedNames message message') (h : ShowsNoSource entry)
    (hmem : message ∈ (entry.member "messages").items) :
    (finding entry' message').toIssue workingDir = (finding entry message).toIssue workingDir := by
  have hmember (name : Text) (hname : name ∈ usedNames) :
      Thinned usedNames (message.member name) (message'.member name) := hmessage.member hname
  have hpart (name : Text) (hname : name ∈ usedNames) :
      Position.known (message'.member name) = Position.known (message.member name) :=
    (hmember name hname).known_eq
  have hpath : entry'.member "filePath" = entry.member "filePath" :=
    h.path.eq_of_thinned (hentry.member (by decide))
  have htext : message'.member "message" = message.member "message" :=
    (h.message _ hmem).eq_of_thinned (hmember "message" (by decide))
  have hrule : message'.member "ruleId" = message.member "ruleId" :=
    (h.rule _ hmem).eq_of_thinned (hmember "ruleId" (by decide))
  refine Finding.toIssue_congr workingDir hpath (congrArg (Finding.describe "ESLint") htext)
    (congrArg (Finding.qualify "EsLint") hrule) (hmember "severity" (by decide)).severity_eq ?_
  simp only [Finding.position, finding, hpart "line" (by decide), hpart "column" (by decide),
    hpart "endLine" (by decide), hpart "endColumn" (by decide)]

/-- The issues of an entry, if it has the right shape. -/
def issues? (workingDir : Text) (entry : Json) : Option (List (Except Fault Issue)) :=
  (Output.entryRecords? "messages" entry).map fun records =>
    records.map fun message => (finding entry message).toIssue workingDir

theorem issues?_thinned (workingDir : Text) (hentry : Thinned usedNames entry entry')
    (h : ShowsNoSource entry) : issues? workingDir entry' = issues? workingDir entry := by
  have hname : Text.ofString "messages" ∈ usedNames := by decide
  rw [issues?, issues?, Output.entryRecords?_eq, Output.entryRecords?_eq, hentry.isEntry_eq hname]
  split
  · rw [Option.map_some, Option.map_some]
    exact congrArg some (Json.map_eq_of_forall₂ (hentry.member hname).forall₂_items
      fun message hmem message' hmessage => toIssue_thinned workingDir hentry hmessage h hmem)
  · rw [Option.map_none, Option.map_none]

theorem map_decodeArray (workingDir : Text) {text : Text}
    (h : Output.document? text = some (.array entries)) :
    (decodeArray text).map (Finding.toIssue workingDir) =
      Decoded.ofEntries (entries.map (issues? workingDir)) := by
  have hlist : Decoded.ofEntryList "messages" text =
      .ofEntries (entries.map fun entry =>
        (Output.entryRecords? "messages" entry).map fun records => records.map (entry, ·)) := by
    rw [Decoded.ofEntryList, h]
    rfl
  rw [decodeArray, hlist, Decoded.map_map, Decoded.map_ofEntries, List.map_map]
  refine congrArg Decoded.ofEntries (List.map_congr_left fun entry _ => ?_)
  simp only [Function.comp_def, Option.map_map, List.map_map, issues?]

/-- Cutting the sources out of a document changes no outcome, if all that is cut out consists of
members that are not used, and none of it would have been shown. -/
theorem outcome_excised {workingDir output : Text}
    (h : Output.document? (withoutBanner "[" output) = some (.array entries))
    (hsources : ∀ raw ∈ excisedTexts (withoutBanner "[" output), Cuttable usedNames raw)
    (hshown : ∀ entry ∈ entries, ShowsNoSource entry) :
    outcome workingDir output =
      (decodeArray (withoutBanner "[" output)).findingOutcome workingDir output := by
  obtain ⟨hread, -⟩ := Output.document?_eq_some.mp h
  obtain ⟨v, hread', hthinned⟩ :=
    Json.read_excised (Output.excised_withoutSources hsources .nowhere rfl) hread
  obtain ⟨entries', rfl, hentries⟩ := hthinned.exists_items
  have hdocument := Output.document?_eq_some.mpr ⟨hread', rfl⟩
  refine Decoded.findingOutcome_congr ?_
  rw [map_decodeArray workingDir h, decode, map_decodeArray workingDir hdocument]
  refine congrArg Decoded.ofEntries (Json.map_eq_of_forall₂ hentries ?_)
  exact fun entry hmem entry' hentry => issues?_thinned workingDir hentry (hshown entry hmem)

/-! ### Closed and open sources -/

theorem exists_entries {text : Text} {p : List Json → Bool}
    (h : (Output.items? (Output.document? text)).any p = true) :
    ∃ entries, Output.document? text = some (.array entries) ∧ p entries = true := by
  cases hdocument : Output.document? text with
  | none =>
    rw [hdocument] at h
    cases h
  | some v =>
    rw [hdocument] at h
    cases v with
    | array entries => exact ⟨entries, rfl, h⟩
    | _ => cases h

/-- An entry in which nothing is shown at all. -/
def showsNothing (entry : Json) : Bool :=
  (entry.member "filePath").isBlank && (entry.member "messages").items.all fun message =>
    (message.member "message").isBlank && (message.member "ruleId").isBlank

theorem showsNoSource_of_showsNothing (h : showsNothing entry = true) : ShowsNoSource entry := by
  simp only [showsNothing, Bool.and_eq_true, List.all_eq_true] at h
  exact ⟨Json.whole_of_isBlank h.1, fun message hmem => Json.whole_of_isBlank (h.2 message hmem).1,
    fun message hmem => Json.whole_of_isBlank (h.2 message hmem).2⟩

/-- A source between the findings of a file and another member. -/
def closedSource : Text :=
  "[\x7b\"messages\":[\x7b\x7d]" ++ sourceOpening ++ Text.ofString "x\",\"output\":\"y" ++
    sourceClosing ++ Text.ofString "[]\x7d]"

/-- A source is cut out, and the finding before it is an issue as it would be anyhow. -/
theorem outcome_excised_closedSource :
    ∃ entries, Output.document? (withoutBanner "[" closedSource) = some (.array entries) ∧
      (∀ raw ∈ excisedTexts (withoutBanner "[" closedSource), Cuttable usedNames raw) ∧
      (∀ entry ∈ entries, ShowsNoSource entry) ∧
      withoutSources (withoutBanner "[" closedSource) ≠ closedSource ∧
      outcome [.scalar '/'] closedSource =
        (decodeArray (withoutBanner "[" closedSource)).findingOutcome [.scalar '/']
          closedSource := by
  have hsources :
      ∀ raw ∈ excisedTexts (withoutBanner "[" closedSource), Cuttable usedNames raw := by
    decide +kernel
  have hcut : withoutSources (withoutBanner "[" closedSource) ≠ closedSource := by decide +kernel
  obtain ⟨entries, hdocument, hentries⟩ := exists_entries
    (show (Output.items? (Output.document? (withoutBanner "[" closedSource))).any
      (List.all · showsNothing) = true by decide +kernel)
  have hshown : ∀ entry ∈ entries, ShowsNoSource entry := fun entry hmem =>
    showsNoSource_of_showsNothing (List.all_eq_true.mp hentries entry hmem)
  exact ⟨entries, hdocument, hsources, hshown, hcut, outcome_excised hdocument hsources hshown⟩

/-- The source of the first file ends with the file, and the second mark that is found is behind the
finding in the other one. -/
def openSource : Text :=
  "[\x7b\"filePath\":\"a.js\"" ++ sourceOpening ++
    Text.ofString "\"\x7d,\x7b\"messages\":[\x7b\x7d],\"filePath\":\"b.js" ++ sourceClosing ++
    Text.ofString "[]\x7d]"

/-- A message that is an object with a source. -/
def shownSource : Text :=
  "[\x7b\"messages\":[\x7b\"message\":\x7b\"a\":0" ++ sourceOpening ++ sourceClosing ++
    Text.ofString "0\x7d\x7d]\x7d]"

/-- The outcome of findings that do no harm. -/
theorem findingOutcome_decodeArray {workingDir text : Text} (output : Text)
    (h : ∀ f ∈ (decodeArray text).items, f.Harmless workingDir)
    (hintact : (decodeArray text).intact = true) :
    (decodeArray text).findingOutcome workingDir output =
      .ok (.ok ((decodeArray text).items.map (·.tolerated workingDir))) := by
  rw [Decoded.findingOutcome_of_harmless (fun f hf => Tool.bounded_decodeArray hf) h,
    if_pos hintact]

/-- A source that is not closed takes the finding in another file with it, and one that would have
been shown is missed in a description. -/
theorem outcome_openSource :
    (∃ entries issue,
      Output.document? (withoutBanner "[" openSource) = some (.array entries) ∧
      outcome [.scalar '/'] openSource = .ok (.ok []) ∧
      (decodeArray (withoutBanner "[" openSource)).findingOutcome [.scalar '/'] openSource =
        .ok (.ok [issue])) ∧
    ∃ entries, Output.document? (withoutBanner "[" shownSource) = some (.array entries) ∧
      (∀ raw ∈ excisedTexts (withoutBanner "[" shownSource), Cuttable usedNames raw) ∧
      outcome [.scalar '/'] shownSource ≠
        (decodeArray (withoutBanner "[" shownSource)).findingOutcome [.scalar '/'] shownSource := by
  have hexists (text : Text) (h : (Output.items? (Output.document? text)).isSome = true) :
      ∃ entries, Output.document? text = some (.array entries) := by
    obtain ⟨entries, hdocument, -⟩ := exists_entries (p := fun _ => true) (by simpa using h)
    exact ⟨entries, hdocument⟩
  constructor
  · obtain ⟨entries, hdocument⟩ := hexists (withoutBanner "[" openSource) (by decide +kernel)
    have hnone : (decode openSource).items.length = 0 := by decide +kernel
    have hone : (decodeArray (withoutBanner "[" openSource)).items.length = 1 := by decide +kernel
    have hcut : outcome [.scalar '/'] openSource = _ :=
      findingOutcome_decodeArray openSource (by decide +kernel) (by decide +kernel)
    have hwhole := findingOutcome_decodeArray openSource
      (show ∀ f ∈ (decodeArray (withoutBanner "[" openSource)).items, f.Harmless [.scalar '/'] by
        decide +kernel) (by decide +kernel)
    obtain ⟨f, hf⟩ := List.length_eq_one_iff.mp hone
    rw [hf] at hwhole
    have hitems : (decodeArray (withoutSources (withoutBanner "[" openSource))).items = [] :=
      List.length_eq_zero_iff.mp hnone
    rw [hitems] at hcut
    exact ⟨entries, _, hdocument, hcut, hwhole⟩
  · obtain ⟨entries, hdocument⟩ := hexists (withoutBanner "[" shownSource) (by decide +kernel)
    refine ⟨entries, hdocument, by decide +kernel, fun heq => ?_⟩
    have hcut : outcome [.scalar '/'] shownSource = _ :=
      findingOutcome_decodeArray shownSource (by decide +kernel) (by decide +kernel)
    have hwhole := findingOutcome_decodeArray shownSource
      (show ∀ f ∈ (decodeArray (withoutBanner "[" shownSource)).items, f.Harmless [.scalar '/'] by
        decide +kernel) (by decide +kernel)
    have hissues := Outcome.ok.inj (Except.ok.inj (hcut.symm.trans (heq.trans hwhole)))
    have hdescriptions := congrArg (List.map Issue.description) hissues
    rw [List.map_map, List.map_map] at hdescriptions
    have hdiffer : (decode shownSource).items.map Finding.description ≠
        (decodeArray (withoutBanner "[" shownSource)).items.map Finding.description := by
      decide +kernel
    exact hdiffer hdescriptions

end EsLint

end LintReport
