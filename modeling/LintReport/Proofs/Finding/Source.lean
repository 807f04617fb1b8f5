import LintReport.Finding.Biome
import LintReport.Proofs.Session.Effect
import LintReport.Proofs.Traversal

/-!
Sources of diagnostics. A document of Biome is decoded in a session, but all that it takes from
there are the files below a directory. What it amounts to is therefore a function of the workspace
and of the directory from which the files are seen.
-/
namespace LintReport.Biome

open LintReport.Action (HasEffect Quiet value hasEffect_pure hasEffect_throw hasEffect_ofExcept)

variable {w w' : Workspace} {d : Path}

/-- The bytes of a source file in a workspace, if it has a name and can be read. -/
def sourceIn (w : Workspace) (d sourceDir : Path) (file : Json) : Except Fault (Option Bytes) :=
  if file.isBlank then .ok none else
    match file with
    | .string name => (w.read d (sourceDir ++ Path.ofText name)).map Except.toOption
    | file => .error (.notAPath file)

/-- The first and the last line of a diagnostic in a workspace. -/
def linesIn (w : Workspace) (d sourceDir : Path) (diagnostic : Diagnostic) :
    Except Fault (Nat × Option Nat) :=
  match diagnostic.span, diagnostic.source with
  | none, _ => .ok (1, none)
  | some (start, stop), some source =>
    match source.encode with
    | .ok bytes => .ok (Output.spanLines bytes start stop)
    | .error fault => .error (.unencodable fault)
  | some (start, stop), none =>
    (sourceIn w d sourceDir diagnostic.file).map fun
      | some bytes => Output.spanLines bytes start stop
      | none => (1, none)

/-- The issue of a diagnostic in a workspace. -/
def Diagnostic.issueIn (w : Workspace) (d : Path) (workingDir : Text) (sourceDir : Path)
    (diagnostic : Diagnostic) : Except Fault Issue := do
  let lines ← linesIn w d sourceDir diagnostic
  (diagnostic.finding lines).toIssue workingDir

theorem issueIn_of_linesIn {sourceDir : Path} {diagnostic : Diagnostic}
    {lines : Nat × Option Nat} (h : linesIn w d sourceDir diagnostic = .ok lines)
    (workingDir : Text) :
    diagnostic.issueIn w d workingDir sourceDir = (diagnostic.finding lines).toIssue workingDir := by
  rw [Diagnostic.issueIn, h]
  rfl

/-- The lines of a span, if it is looked up in a file. -/
def linesAt (w : Workspace) (p : Path) (start stop : Int) : Nat × Option Nat :=
  ((w.file? p).map (Output.spanLines · (some start) (some stop))).getD (1, none)

theorem linesIn_of_named {sourceDir : Path} {diagnostic : Diagnostic} {start stop : Int}
    {name : Text} (hspan : diagnostic.span = some (start, stop))
    (hsource : diagnostic.source = none) (hfile : diagnostic.file = .string name)
    (hblank : (Json.string name).isBlank = false) :
    linesIn w d sourceDir diagnostic =
      if (sourceDir ++ Path.ofText name).names.any (.scalar '\x00' ∈ ·) then .error .nulInPath
      else .ok (linesAt w (Path.resolve d (sourceDir ++ Path.ofText name)) start stop) := by
  simp only [linesIn, hspan, hsource, sourceIn, hfile, hblank, Bool.false_eq_true, if_false,
    Workspace.read, linesAt]
  split
  · rfl
  · cases w.file? (Path.resolve d (sourceDir ++ Path.ofText name)) <;> rfl

theorem hasEffect_readSource (sourceDir : Path) (file : Json) :
    HasEffect w d (readSource sourceDir file) ⟨sourceIn w d sourceDir file, [], d⟩ := by
  unfold readSource
  by_cases hblank : file.isBlank = true
  · rw [if_pos hblank]
    exact (hasEffect_pure none).of_eq (by simp [sourceIn, hblank])
  · rw [if_neg hblank]
    cases file with
    | string name =>
      have hsource : sourceIn w d sourceDir (.string name) =
          (w.read d (sourceDir ++ Path.ofText name)).map Except.toOption := by
        rw [sourceIn, if_neg hblank]
      rw [hsource]
      apply Action.hasEffect_get_bind
      rintro σ rfl rfl
      have hread := hasEffect_ofExcept (w := σ.workspace) (d := σ.directory)
        (σ.workspace.read σ.directory (sourceDir ++ Path.ofText name))
      cases hr : σ.workspace.read σ.directory (sourceDir ++ Path.ofText name) with
      | error fault =>
        rw [hr] at hread
        exact hread.bind_error
      | ok found =>
        rw [hr] at hread
        cases found with
        | ok bytes => exact hread.bind (hasEffect_pure (some bytes))
        | error failure => exact hread.bind (hasEffect_pure none).say_bind
    | _ => exact (hasEffect_throw _).of_eq (by simp [sourceIn, hblank])

theorem hasEffect_sourceLines (sourceDir : Path) (diagnostic : Diagnostic) :
    HasEffect w d (sourceLines sourceDir diagnostic) ⟨linesIn w d sourceDir diagnostic, [], d⟩ := by
  obtain ⟨entry, file, span, source⟩ := diagnostic
  cases span with
  | none => exact hasEffect_pure _
  | some ends =>
    obtain ⟨start, stop⟩ := ends
    cases source with
    | some source =>
      simp only [sourceLines, linesIn]
      cases source.encode with
      | ok bytes => exact hasEffect_pure _
      | error fault => exact hasEffect_throw _
    | none =>
      simp only [sourceLines, linesIn]
      have hread := hasEffect_readSource (w := w) (d := d) sourceDir file
      cases hr : sourceIn w d sourceDir file with
      | error fault =>
        rw [hr] at hread
        exact hread.bind_error
      | ok found =>
        rw [hr] at hread
        cases found with
        | some bytes => exact hread.bind (hasEffect_pure _)
        | none => exact hread.bind (hasEffect_pure _)

theorem hasEffect_issue (workingDir : Text) (sourceDir : Path) (diagnostic : Diagnostic) :
    HasEffect w d (diagnostic.issue workingDir sourceDir)
      ⟨diagnostic.issueIn w d workingDir sourceDir, [], d⟩ := by
  have hlines := hasEffect_sourceLines (w := w) (d := d) sourceDir diagnostic
  have hbind := hlines.quiet.hasEffect_bind
    (f := fun lines => Action.ofExcept ((diagnostic.finding lines).toIssue workingDir))
    fun lines => (hasEffect_ofExcept _).quiet
  simp only [hlines.value_eq, Action.value_ofExcept] at hbind
  exact hbind

/-- What a document amounts to in a workspace. -/
theorem hasEffect_documentOutcome (workingDir : Text) (sourceDir : Path) (output : Text) :
    HasEffect w d (documentOutcome workingDir sourceDir output)
      ⟨do
        let issues ← (decode output).items.mapM (Diagnostic.issueIn w d workingDir sourceDir)
        return if (decode output).intact then .ok issues else .failed output, [], d⟩ := by
  have hissues := Action.hasEffect_mapM (w := w) (d := d) (decode output).items
    (f := Diagnostic.issue workingDir sourceDir)
    fun diagnostic => (hasEffect_issue workingDir sourceDir diagnostic).quiet
  simp only [(hasEffect_issue workingDir sourceDir _).value_eq] at hissues
  have hbind := hissues.quiet.hasEffect_bind
    (f := fun issues => pure (if (decode output).intact then Outcome.ok issues else .failed output))
    fun issues => (hasEffect_pure _).quiet
  simp only [hissues.value_eq, (hasEffect_pure _).value_eq] at hbind
  exact hbind

end LintReport.Biome
