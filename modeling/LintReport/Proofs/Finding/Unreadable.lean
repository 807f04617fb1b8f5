import LintReport.Proofs.Finding.Tolerated

/-!
Sources that cannot be read. A diagnostic may give a span of a file that is not there or that has no
name. It is an issue of the first line then, and its end is unknown. Two kinds of names end the run
instead, because they are no names of files at all: a value that is not a text, and a text with a
zero in it. So does half a surrogate pair, as it does in any finding.
-/
namespace LintReport.Biome

open LintReport.Action (HasEffect)

variable {w : Workspace} {dir sourceDir : Path} {workingDir output : Text} {d : Diagnostic}

/-! ### Names -/

/-- A path that no file can have, because a zero stands in it. -/
def holdsZero (p : Path) : Bool := p.names.any (.scalar '\x00' ∈ ·)

/-- A diagnostic with a span of a file and without a source of its own, where nothing can be read
under the name of the file. -/
structure Unobtainable (w : Workspace) (dir sourceDir : Path) (d : Diagnostic) : Prop where
  span : ∃ start stop, d.span = some (start, stop)
  source : d.source = none
  absent : ∀ name, d.file = .string name → name ≠ [] →
    holdsZero (sourceDir ++ Path.ofText name) = false →
      w.isFile (Path.resolve dir (sourceDir ++ Path.ofText name)) = false

/-- No name, or a text that can be the name of a file. -/
def IsName (sourceDir : Path) (file : Json) : Prop :=
  file.isBlank = true ∨
    ∃ name, file = .string name ∧ holdsZero (sourceDir ++ Path.ofText name) = false

/-- A diagnostic that needs no source to become an issue. -/
structure Tolerable (workingDir : Text) (sourceDir : Path) (d : Diagnostic) : Prop where
  named : IsName sourceDir d.file
  whole : ∀ c ∈ relativePath workingDir d.file.shownOrNothing ++
    Finding.describe "Biome" (d.entry.member "description"), c.isSurrogate = false

/-- The fault of any other diagnostic. -/
inductive FaultOf (workingDir : Text) (sourceDir : Path) (d : Diagnostic) : Fault → Prop
  | notAPath (hblank : d.file.isBlank = false) (h : ∀ name, d.file ≠ .string name) :
      FaultOf workingDir sourceDir d (.notAPath d.file)
  | nulInPath {name : Text} (hblank : d.file.isBlank = false) (h : d.file = .string name)
      (hzero : holdsZero (sourceDir ++ Path.ofText name) = true) :
      FaultOf workingDir sourceDir d .nulInPath
  | whole {unencodable : Unencodable} (hnamed : IsName sourceDir d.file)
      (h : ((d.finding (1, none)).base workingDir).unencodable? 0 = some unencodable) :
      FaultOf workingDir sourceDir d (.unencodable unencodable)

/-- The issue of a diagnostic at the first line, with an unknown end. -/
def Diagnostic.firstLine (workingDir : Text) (d : Diagnostic) : Issue :=
  (d.finding (1, none)).tolerated workingDir

/-! ### Lines -/

theorem linesIn_of_blank {start stop : Int} (hspan : d.span = some (start, stop))
    (hsource : d.source = none) (hblank : d.file.isBlank = true) :
    linesIn w dir sourceDir d = .ok (1, none) := by
  simp only [linesIn, hspan, hsource, sourceIn, hblank, if_true]
  rfl

theorem linesIn_of_not_text {start stop : Int} (hspan : d.span = some (start, stop))
    (hsource : d.source = none) (hblank : d.file.isBlank = false)
    (hfile : ∀ name, d.file ≠ .string name) :
    linesIn w dir sourceDir d = .error (.notAPath d.file) := by
  have hsourceIn : sourceIn w dir sourceDir d.file = .error (.notAPath d.file) := by
    simp only [sourceIn, hblank, Bool.false_eq_true, if_false]
  simp only [linesIn, hspan, hsource, hsourceIn]
  rfl

theorem linesIn_of_zero {start stop : Int} {name : Text} (hspan : d.span = some (start, stop))
    (hsource : d.source = none) (hblank : d.file.isBlank = false) (hfile : d.file = .string name)
    (hzero : holdsZero (sourceDir ++ Path.ofText name) = true) :
    linesIn w dir sourceDir d = .error .nulInPath := by
  rw [linesIn_of_named hspan hsource hfile (hfile ▸ hblank)]
  exact if_pos hzero

/-- The lines of a span that nothing can be looked up for are those of no span. -/
theorem Unobtainable.linesIn_eq (h : Unobtainable w dir sourceDir d)
    (hnamed : IsName sourceDir d.file) : linesIn w dir sourceDir d = .ok (1, none) := by
  obtain ⟨start, stop, hspan⟩ := h.span
  by_cases hblank : d.file.isBlank = true
  · exact linesIn_of_blank hspan h.source hblank
  · obtain ⟨name, hfile, hzero⟩ := hnamed.resolve_left hblank
    rw [Bool.not_eq_true, hfile] at hblank
    have hname : name ≠ [] := by
      rintro rfl
      cases hblank
    have hnone := h.absent name hfile hname hzero
    rw [Workspace.isFile, Option.isSome_eq_false_iff, Option.isNone_iff_eq_none] at hnone
    rw [linesIn_of_named hspan h.source hfile hblank, linesAt, hnone]
    exact if_neg (by rwa [Bool.not_eq_true])

theorem Unobtainable.exists_faultOf (h : Unobtainable w dir sourceDir d)
    (hnamed : ¬ IsName sourceDir d.file) (workingDir : Text) :
    ∃ fault, linesIn w dir sourceDir d = .error fault ∧ FaultOf workingDir sourceDir d fault := by
  obtain ⟨start, stop, hspan⟩ := h.span
  rw [IsName, not_or, Bool.not_eq_true] at hnamed
  obtain ⟨hblank, hnot⟩ := hnamed
  by_cases htext : ∃ name, d.file = .string name
  · obtain ⟨name, hfile⟩ := htext
    have hzero : holdsZero (sourceDir ++ Path.ofText name) = true := by
      rw [← Bool.not_eq_false]
      exact fun hzero => hnot ⟨name, hfile, hzero⟩
    exact ⟨_, linesIn_of_zero hspan h.source hblank hfile hzero, .nulInPath hblank hfile hzero⟩
  · rw [not_exists] at htext
    exact ⟨_, linesIn_of_not_text hspan h.source hblank htext, .notAPath hblank htext⟩

/-! ### Issues -/

theorem finite_firstLine (d : Diagnostic) :
    (d.finding (1, none)).parts.any Position.isInfinite = false := rfl

theorem bounded_firstLine (d : Diagnostic) : ∀ v ∈ (d.finding (1, none)).parts, v.Bounded := by
  have hline : Json.Bounded (.int 1) := Json.bounded_of_lt_ten (by decide)
  exact Finding.forall_parts.mpr ⟨hline, .null, .null, .null⟩

/-- A diagnostic that can be tolerated is an issue of the first line. -/
theorem Unobtainable.issueIn_eq (h : Unobtainable w dir sourceDir d)
    (htolerable : Tolerable workingDir sourceDir d) :
    d.issueIn w dir workingDir sourceDir = .ok (d.firstLine workingDir) := by
  rw [issueIn_of_linesIn (h.linesIn_eq htolerable.named),
    Finding.toIssue_of_finite (bounded_firstLine d) (finite_firstLine d),
    Finding.unencodable?_base.mpr htolerable.whole, Diagnostic.firstLine]

theorem Unobtainable.exists_error (h : Unobtainable w dir sourceDir d)
    (hnot : ¬ Tolerable workingDir sourceDir d) :
    ∃ fault, d.issueIn w dir workingDir sourceDir = .error fault ∧
      FaultOf workingDir sourceDir d fault := by
  by_cases hnamed : IsName sourceDir d.file
  · rw [issueIn_of_linesIn (h.linesIn_eq hnamed),
      Finding.toIssue_of_finite (bounded_firstLine d) (finite_firstLine d)]
    cases hbase : ((d.finding (1, none)).base workingDir).unencodable? 0 with
    | none => exact absurd ⟨hnamed, Finding.unencodable?_base.mp hbase⟩ hnot
    | some unencodable => exact ⟨_, rfl, .whole hnamed hbase⟩
  · obtain ⟨fault, hfault, hof⟩ := h.exists_faultOf hnamed workingDir
    rw [Diagnostic.issueIn, hfault]
    exact ⟨fault, rfl, hof⟩

/-! ### Outcomes -/

/-- A diagnostic that needs a source which cannot be read stands in the outcome as an issue of the
first line, among the issues of the others. If its name is no name of a file, or it cannot be
written, the run ends in its fault instead. -/
theorem outcome_unobtainable (w : Workspace) (dir : Path) (workingDir : Text) (sourceDir : Path)
    (exitCode : Int) (output : Text) :
    (decode output).Decodes (Output.document? (Tool.biome.documentText output)) Tool.biome.fits
      (fun v => (v.member "diagnostics").items.map diagnosticAt) ∧
    ∀ before d after issues, (decode output).items = before ++ d :: after →
      Unobtainable w dir sourceDir d →
      before.mapM (Diagnostic.issueIn w dir workingDir sourceDir) = .ok issues →
      (Tolerable workingDir sourceDir d →
        (d.firstLine workingDir).location.position = { line := 1 } ∧
        ∀ rest, after.mapM (Diagnostic.issueIn w dir workingDir sourceDir) = .ok rest →
          HasEffect w dir (outcome .document workingDir sourceDir exitCode output)
            ⟨.ok (if (decode output).intact then
              .ok (issues ++ d.firstLine workingDir :: rest) else .failed output), [], dir⟩) ∧
      (¬ Tolerable workingDir sourceDir d → ∃ fault, FaultOf workingDir sourceDir d fault ∧
        HasEffect w dir (outcome .document workingDir sourceDir exitCode output)
          ⟨.error fault, [], dir⟩) := by
  refine ⟨decodes_decode output, ?_⟩
  intro before d after issues hitems hd hbefore
  have heffect := hasEffect_documentOutcome (w := w) (d := dir) workingDir sourceDir output
  rw [hitems, List.mapM_append, hbefore, List.mapM_cons] at heffect
  constructor
  · intro htolerable
    refine ⟨rfl, fun rest hafter => ?_⟩
    rw [hd.issueIn_eq htolerable, hafter] at heffect
    exact heffect
  · intro hnot
    obtain ⟨fault, hfault, hof⟩ := hd.exists_error hnot
    rw [hfault] at heffect
    exact ⟨fault, hof, heffect⟩

/-- A diagnostic with a span of a file. -/
def naming (file : Json) : Diagnostic where
  entry := .object [("location", .object [("path", .object [("file", file)]),
    ("span", .array [.int 0, .int 1])])]
  file := file
  span := some (0, 1)
  source := none

/-- The output for such a diagnostic, in which the file is spelled out. -/
def outputNaming (file : List Char) : Text :=
  Text.ofChars (['{', '"', 'd', 'i', 'a', 'g', 'n', 'o', 's', 't', 'i', 'c', 's', '"', ':', '[',
    '{', '"', 'l', 'o', 'c', 'a', 't', 'i', 'o', 'n', '"', ':', '{', '"', 'p', 'a', 't', 'h',
    '"', ':', '{', '"', 'f', 'i', 'l', 'e', '"', ':'] ++ file ++
    ['}', ',', '"', 's', 'p', 'a', 'n', '"', ':', '[', '0', ',', '1', ']', '}', '}', ']', '}'])

/-- Where there are no files, a diagnostic of one is an issue, and a number in the place of the name
ends the run. -/
theorem outcome_unobtainable_number :
    (decode (outputNaming ['"', 'a', '"'])).items = [naming (.string "a")] ∧
      HasEffect {} ⟨.slash, []⟩
        (outcome .document [.scalar '/'] ⟨.slash, []⟩ 1 (outputNaming ['"', 'a', '"']))
        ⟨.ok (.ok [(naming (.string "a")).firstLine [.scalar '/']]), [], ⟨.slash, []⟩⟩ ∧
      (decode (outputNaming ['5'])).items = [naming (.int 5)] ∧
      HasEffect {} ⟨.slash, []⟩
        (outcome .document [.scalar '/'] ⟨.slash, []⟩ 1 (outputNaming ['5']))
        ⟨.error (.notAPath (.int 5)), [], ⟨.slash, []⟩⟩ := by
  have hmissing : (decode (outputNaming ['"', 'a', '"'])).items = [naming (.string "a")] := rfl
  have hnumber : (decode (outputNaming ['5'])).items = [naming (.int 5)] := rfl
  have hunobtainable (file : Json) :
      Unobtainable {} ⟨.slash, []⟩ ⟨.slash, []⟩ (naming file) :=
    ⟨⟨0, 1, rfl⟩, rfl, fun name hfile hname hzero => rfl⟩
  have htolerable : Tolerable [.scalar '/'] ⟨.slash, []⟩ (naming (.string "a")) :=
    ⟨Or.inr ⟨"a", rfl, rfl⟩, by decide⟩
  have hnot : ¬ Tolerable [.scalar '/'] ⟨.slash, []⟩ (naming (.int 5)) := by
    intro h
    rcases h.named with hblank | ⟨name, hname, -⟩
    · cases hblank
    · cases hname
  have hissue := ((outcome_unobtainable {} ⟨.slash, []⟩ [.scalar '/'] ⟨.slash, []⟩ 1 _).2
    [] _ [] [] hmissing (hunobtainable _) rfl).1 htolerable
  obtain ⟨fault, hfault, heffect⟩ := ((outcome_unobtainable {} ⟨.slash, []⟩ [.scalar '/']
    ⟨.slash, []⟩ 1 _).2 [] _ [] [] hnumber (hunobtainable _) rfl).2 hnot
  have hfault : fault = .notAPath (.int 5) := by
    cases hfault with
    | notAPath => rfl
    | nulInPath _ h => cases h
    | whole hnamed =>
      rcases hnamed with hblank | ⟨name, hname, -⟩
      · cases hblank
      · cases hname
  exact ⟨hmissing, hissue.2 [] rfl, hnumber, hfault ▸ heffect⟩

end LintReport.Biome
