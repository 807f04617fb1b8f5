import LintReport.Proofs.Finding.Echoed
import LintReport.Proofs.Json.Mapped

/-!
Sources in a document and in files. A document may hold the sources of its diagnostics or leave them
to be read. Where the files hold what the document would, byte for byte, it amounts to the same with
its sources and without them.
-/
namespace LintReport.Biome

open LintReport.Action (HasEffect Quiet value)

variable {w : Workspace} {dir sourceDir : Path} {workingDir output output' : Text}
  {d : Diagnostic} {entry v : Json}

/-! ### Documents without sources -/

/-- An entry of a document without the source in it. -/
def sourceless (entry : Json) : Json := entry.mapMember "location" (Json.without "sourceCode")

/-- A document without the sources in it. -/
def withoutSources (v : Json) : Json := v.mapMember "diagnostics" (Json.mapItems sourceless)

/-- A diagnostic without the source in it. -/
def Diagnostic.sourceless (d : Diagnostic) : Diagnostic :=
  { d with entry := Biome.sourceless d.entry, source := none }

theorem location_sourceless (entry : Json) :
    (sourceless entry).member "location" = (entry.member "location").without "sourceCode" :=
  Json.member_mapMember_self rfl _ entry

theorem location_member_sourceless {name : Text} (h : name ≠ "sourceCode") (entry : Json) :
    ((sourceless entry).member "location").member name = (entry.member "location").member name := by
  rw [location_sourceless, Json.member_without_of_ne h]

theorem isObject_mapMember (name : Text) (f : Json → Json) (v : Json) :
    (v.mapMember name f).isObject = v.isObject := by
  cases v <;> rfl

theorem isObjectOrBlank_without (name : Text) (v : Json) :
    (v.without name).isObjectOrBlank = v.isObjectOrBlank := by
  cases v with
  | object members => simp [Json.without, Json.isObjectOrBlank, Json.isObject, Json.members?]
  | _ => rfl

theorem isDiagnostic_sourceless (entry : Json) :
    isDiagnostic (sourceless entry) = isDiagnostic entry := by
  have hpath : Text.ofString "path" ≠ "sourceCode" := by decide
  unfold isDiagnostic
  rw [location_member_sourceless hpath, location_sourceless, isObjectOrBlank_without]
  unfold sourceless
  rw [isObject_mapMember]

theorem diagnosticAt_sourceless (entry : Json) :
    diagnosticAt (sourceless entry) = (diagnosticAt entry).sourceless := by
  have hpath : Text.ofString "path" ≠ "sourceCode" := by decide
  have hspan : Text.ofString "span" ≠ "sourceCode" := by decide
  unfold diagnosticAt Diagnostic.sourceless
  rw [location_member_sourceless hpath, location_member_sourceless hspan, location_sourceless,
    Json.member_without_self]

theorem diagnostic?_sourceless (entry : Json) :
    diagnostic? (sourceless entry) = (diagnostic? entry).map Diagnostic.sourceless := by
  rw [diagnostic?_eq, diagnostic?_eq, isDiagnostic_sourceless, diagnosticAt_sourceless]
  cases isDiagnostic entry <;> rfl

/-- Without the sources in its document, the same is decoded but for the sources. -/
theorem decode_withoutSources
    (hv : Output.document? (Tool.biome.documentText output) = some v)
    (hv' : Output.document? (Tool.biome.documentText output') = some (withoutSources v)) :
    decode output' = (decode output).map Diagnostic.sourceless := by
  have hmember : (withoutSources v).member "diagnostics" =
      Json.mapItems sourceless (v.member "diagnostics") := Json.member_mapMember_self rfl _ v
  rw [decode_of_document hv, decode_of_document hv', hmember]
  cases v.member "diagnostics" with
  | array entries =>
    -- an entry of a wrong shape still has one, so both decodings stop at the same entry
    change Decoded.ofEntries ((entries.map sourceless).map _) =
      (Decoded.ofEntries (entries.map _)).map _
    rw [Decoded.map_ofEntries, List.map_map, List.map_map]
    refine congrArg Decoded.ofEntries (List.map_congr_left fun entry _ => ?_)
    change (diagnostic? (sourceless entry)).map _ = ((diagnostic? entry).map _).map _
    rw [diagnostic?_sourceless]
    cases diagnostic? entry <;> rfl
  | _ => rfl

/-! ### Sources in files -/

/-- The file of a diagnostic can be read, and it holds the source in the diagnostic. -/
def OnDisk (w : Workspace) (dir sourceDir : Path) (d : Diagnostic) : Prop :=
  ∃ name source bytes, d.file = .string name ∧ name ≠ [] ∧ d.source = some source ∧
    source.encode = .ok bytes ∧ w.read dir (sourceDir ++ Path.ofText name) = .ok (.ok bytes)

theorem OnDisk.linesIn_eq (h : OnDisk w dir sourceDir d) :
    linesIn w dir sourceDir d.sourceless = linesIn w dir sourceDir d := by
  obtain ⟨name, source, bytes, hfile, hname, hsource, hencode, hread⟩ := h
  cases hspan : d.span with
  | none => simp only [linesIn, Diagnostic.sourceless, hspan]
  | some ends =>
    have hblank : (Json.string name).isBlank = false := by
      cases name with
      | nil => exact absurd rfl hname
      | cons c name => rfl
    have hfound : sourceIn w dir sourceDir d.file = .ok (some bytes) := by
      rw [hfile, sourceIn, hblank, hread]
      rfl
    simp only [linesIn, Diagnostic.sourceless, hspan, hsource, hencode, hfound]
    rfl

theorem finding_sourceless (d : Diagnostic) (lines : Nat × Option Nat) :
    d.sourceless.finding lines = d.finding lines := by
  have hmember {name : Text} (h : name ≠ "location") :
      d.sourceless.entry.member name = d.entry.member name :=
    Json.member_mapMember_of_ne h _ d.entry
  have hdescription := @hmember "description" (by decide)
  have hseverity := @hmember "severity" (by decide)
  have hcategory := @hmember "category" (by decide)
  unfold Diagnostic.finding
  rw [hdescription, hseverity, hcategory]
  rfl

theorem OnDisk.issueIn_eq (h : OnDisk w dir sourceDir d) (workingDir : Text) :
    d.sourceless.issueIn w dir workingDir sourceDir = d.issueIn w dir workingDir sourceDir := by
  unfold Diagnostic.issueIn
  simp only [h.linesIn_eq, finding_sourceless]

/-! ### Outcomes -/

theorem mem_decode (hv : Output.document? (Tool.biome.documentText output) = some v)
    (hd : d ∈ (decode output).items) :
    ∃ entry ∈ (v.member "diagnostics").items, isDiagnostic entry = true ∧
      diagnosticAt entry = d := by
  rw [decode_of_document hv] at hd
  cases hm : v.member "diagnostics" with
  | array entries =>
    rw [hm] at hd
    obtain ⟨found, hfound, hmem⟩ := Decoded.mem_of_mem_ofEntries hd
    obtain ⟨entry, hentry, heq⟩ := List.mem_map.mp hfound
    rw [diagnostic?_eq] at heq
    by_cases hdiagnostic : isDiagnostic entry = true
    · rw [if_pos hdiagnostic] at heq
      cases heq
      exact ⟨entry, hentry, hdiagnostic, (List.mem_singleton.mp hmem).symm⟩
    · rw [if_neg hdiagnostic] at heq
      cases heq
  | _ =>
    rw [hm] at hd
    cases hd

/-- Whether the sources stand in the document or in the files makes no difference. -/
theorem outcome_withoutSources
    (hv : Output.document? (Tool.biome.documentText output) = some v)
    (hv' : Output.document? (Tool.biome.documentText output') = some (withoutSources v))
    (hdisk : ∀ entry ∈ (v.member "diagnostics").items, isDiagnostic entry = true →
      OnDisk w dir sourceDir (diagnosticAt entry)) (workingDir : Text) (exitCode : Int) :
    ∃ r r', HasEffect w dir (outcome .document workingDir sourceDir exitCode output)
        ⟨r, [], dir⟩ ∧
      HasEffect w dir (outcome .document workingDir sourceDir exitCode output') ⟨r', [], dir⟩ ∧
      SameOutcome output output' r r' := by
  have hdecode := decode_withoutSources hv hv'
  have hissue : ∀ d ∈ (decode output).items, d.sourceless.issueIn w dir workingDir sourceDir =
      d.issueIn w dir workingDir sourceDir := by
    intro d hd
    obtain ⟨entry, hentry, hdiagnostic, rfl⟩ := mem_decode hv hd
    exact (hdisk entry hentry hdiagnostic).issueIn_eq workingDir
  have hissues : (decode output').items.mapM (Diagnostic.issueIn w dir workingDir sourceDir) =
      (decode output).items.mapM (Diagnostic.issueIn w dir workingDir sourceDir) := by
    rw [hdecode, Decoded.map, List.mapM_map]
    exact mapM_congr hissue
  have heffect := hasEffect_documentOutcome (w := w) (d := dir) workingDir sourceDir output
  have heffect' := hasEffect_documentOutcome (w := w) (d := dir) workingDir sourceDir output'
  rw [hissues, hdecode] at heffect'
  refine ⟨_, _, heffect, heffect', ?_⟩
  cases (decode output).items.mapM (Diagnostic.issueIn w dir workingDir sourceDir) with
  | error fault => exact .fault fault
  | ok issues =>
    change SameOutcome output output'
      (.ok (if (decode output).intact then .ok issues else .failed output))
      (.ok (if (decode output).intact then .ok issues else .failed output'))
    cases (decode output).intact with
    | true => exact .ok issues
    | false => exact .failed

/-- An entry for what stands behind the first line of a file, with another member in its
location. -/
def entryLocating (member : Table Json) : Json :=
  .object [("location", .object (("path", .object [("file", .string "a")]) ::
    ("span", .array [.int 2, .int 2]) :: member))]

/-- The output for such an entry, in which the member is spelled out. -/
def outputLocating (member : List Char) : Text :=
  Text.ofChars (['{', '"', 'd', 'i', 'a', 'g', 'n', 'o', 's', 't', 'i', 'c', 's', '"', ':', '[',
    '{', '"', 'l', 'o', 'c', 'a', 't', 'i', 'o', 'n', '"', ':', '{', '"', 'p', 'a', 't', 'h',
    '"', ':', '{', '"', 'f', 'i', 'l', 'e', '"', ':', '"', 'a', '"', '}', ',', '"', 's', 'p',
    'a', 'n', '"', ':', '[', '2', ',', '2', ']'] ++ member ++ ['}', '}', ']', '}'])

/-- A member with one line as the source, spelled out. -/
def memberOneLine : List Char :=
  [',', '"', 's', 'o', 'u', 'r', 'c', 'e', 'C', 'o', 'd', 'e', '"', ':', '"', 'x', '\\', 'n', '"']

/-- A file with that line. -/
def fileOneLine : Workspace := { files := [(⟨.slash, ["a"]⟩, [0x78, 0x0A])] }

/-- Behind the line there is an issue of the second line, whether the line stands in the document as
well or not. -/
theorem outcome_withoutSources_oneLine :
    ∃ issue, issue.location.position = { line := 2, endLine := some 2 } ∧
      HasEffect fileOneLine ⟨.slash, []⟩
        (outcome .document [.scalar '/'] ⟨.slash, []⟩ 1 (outputLocating memberOneLine))
        ⟨.ok (.ok [issue]), [], ⟨.slash, []⟩⟩ ∧
      HasEffect fileOneLine ⟨.slash, []⟩
        (outcome .document [.scalar '/'] ⟨.slash, []⟩ 1 (outputLocating []))
        ⟨.ok (.ok [issue]), [], ⟨.slash, []⟩⟩ := by
  let source : Text := [.scalar 'x', .scalar '\n']
  let entry := entryLocating [("sourceCode", .string source)]
  have hv : Output.document? (Tool.biome.documentText (outputLocating memberOneLine)) =
    some (.object [("diagnostics", .array [entry])]) := rfl
  have hv' : Output.document? (Tool.biome.documentText (outputLocating [])) =
    some (withoutSources (.object [("diagnostics", .array [entry])])) := rfl
  have hdisk : OnDisk fileOneLine ⟨.slash, []⟩ ⟨.slash, []⟩ (diagnosticAt entry) :=
    ⟨"a", source, [0x78, 0x0A], rfl, by decide, rfl, rfl, rfl⟩
  have hlines : linesIn fileOneLine ⟨.slash, []⟩ ⟨.slash, []⟩ (diagnosticAt entry) =
    .ok (2, some 2) := rfl
  have hnumber : Json.Bounded (.int 2) := Json.bounded_of_lt_ten (by decide)
  have hbounded : ∀ v ∈ ((diagnosticAt entry).finding (2, some 2)).parts, v.Bounded :=
    Finding.forall_parts.mpr ⟨hnumber, .null, hnumber, .null⟩
  have hharmless : ((diagnosticAt entry).finding (2, some 2)).Harmless [.scalar '/'] :=
    ⟨by decide, by decide⟩
  have hissue := (issueIn_of_linesIn hlines [.scalar '/']).trans (hharmless.toIssue_eq hbounded)
  have hitems : (decode (outputLocating memberOneLine)).items = [diagnosticAt entry] := rfl
  have hintact : (decode (outputLocating memberOneLine)).intact = true := rfl
  have heffect := hasEffect_documentOutcome (w := fileOneLine) (d := ⟨.slash, []⟩)
    [.scalar '/'] ⟨.slash, []⟩ (outputLocating memberOneLine)
  rw [hitems, hintact, List.mapM_cons, hissue] at heffect
  obtain ⟨r, r', hr, hr', hsame⟩ := @outcome_withoutSources fileOneLine ⟨.slash, []⟩ ⟨.slash, []⟩
    _ _ _ hv hv' (List.forall_mem_singleton.mpr fun _ => hdisk) [.scalar '/'] 1
  have hok := hr.value_eq.symm.trans heffect.value_eq
  cases hok
  cases hsame
  exact ⟨_, rfl, hr, hr'⟩

end LintReport.Biome
