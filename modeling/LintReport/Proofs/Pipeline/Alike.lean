import LintReport.Proofs.Pipeline.Restored
import LintReport.Proofs.Session.Alike

/-!
Pipelines in two workspaces that have the same files, of which one may have another text. A tool's
stage looks at the text of a file in one case only: Biome's documents give byte spans, and the lines
of a span are looked up in the file. Apart from that no stage can tell the workspaces apart.
-/
namespace LintReport

open LintReport.Action (Agree HasEffect agree_pure agree_say SameEnd)

/-- Two workspaces with the same programs and the same files, of which one may have another text. -/
structure Workspace.SameBut (file : Path) (w w' : Workspace) : Prop extends
    Workspace.SamePlaces w w' where
  file?_eq : ∀ p, p ≠ file → w.file? p = w'.file? p
  tools_eq : w.tools = w'.tools
  versions_eq : w.versions = w'.versions

variable {w w' : Workspace} {d file sourceDir : Path} {s : Settings} {output : Text}

theorem Workspace.SameBut.agree (h : SameBut file w w') (command : List Text) :
    Workspace.Agree w w' command := by
  unfold Workspace.Agree process?
  rw [h.tools_eq, h.versions_eq]

theorem Workspace.file?_write (w : Workspace) (file : Path) (bytes : Bytes) (p : Path) :
    (w.write file bytes).file? p = if p = file then some bytes else w.file? p := by
  unfold file? write
  rw [List.find?_append]
  by_cases hp : p = file
  · have hnone : (w.files.filter (·.1 ≠ file)).find? (·.1 = p) = none := by
      simp [List.find?_eq_none, hp]
    rw [hnone, if_pos hp]
    simp [hp]
  · have hkept : (w.files.filter (·.1 ≠ file)).find? (·.1 = p) = w.files.find? (·.1 = p) := by
      rw [List.find?_filter]
      congr 1
      funext f
      by_cases hf : f.1 = p <;> simp [hf, hp]
    rw [hkept, if_neg hp]
    simp [Ne.symm hp]

theorem Workspace.isDirectory_write (w : Workspace) (file : Path) (bytes bytes' : Bytes)
    (p : Path) : (w.write file bytes).isDirectory p = (w.write file bytes').isDirectory p := by
  simp [isDirectory, write]

/-- Workspaces are the same but for a file that has been written with one text or another, and with
another environment. -/
theorem Workspace.sameBut_write (w : Workspace) (environment : Table Text) (file : Path)
    (bytes bytes' : Bytes) :
    (w.write file bytes).SameBut file ({ w with environment }.write file bytes') where
  isFile_eq p := by
    rw [isFile, isFile, file?_write, file?_write]
    split <;> rfl
  isDirectory_eq := isDirectory_write w file bytes bytes'
  file?_eq p hp := by
    rw [file?_write, file?_write, if_neg hp, if_neg hp]
    rfl
  tools_eq := rfl
  versions_eq := rfl

/-! ### Spans -/

namespace Biome

/-- A document gives a span of a file, and not the source of the file. -/
def GivesSpan (output : Text) (sourceDir file : Path) (start stop : Int) : Prop :=
  ∃ diagnostic ∈ (decode output).items,
    diagnostic.span = some (start, stop) ∧ diagnostic.source = none ∧
      ∃ name, diagnostic.file = .string name ∧
        Path.resolve sourceDir (sourceDir ++ Path.ofText name) = file

/-- The spans of a file that a document gives have the same lines in two workspaces. -/
def SameLines (w w' : Workspace) (output : Text) (sourceDir file : Path) : Prop :=
  ∀ start stop, GivesSpan output sourceDir file start stop →
    (w.file? file).map (Output.spanLines · (some start) (some stop)) =
      (w'.file? file).map (Output.spanLines · (some start) (some stop))

/-- A file below an absolute directory is seen alike from everywhere. -/
theorem resolve_below (hroot : sourceDir.root ≠ .relative) (p d e : Path) :
    Path.resolve d (sourceDir ++ p) = Path.resolve e (sourceDir ++ p) := by
  refine Path.resolve_of_absolute ?_ d e
  by_cases hp : p.root = .relative
  · rw [Path.append_of_relative hp]
    exact hroot
  · rw [Path.append_of_absolute hp]
    exact hp

/-- The lines of a diagnostic can only be other ones if they are looked up in the file that has
another text. -/
theorem linesIn_eq (h : w.SameBut file w') (hroot : sourceDir.root ≠ .relative)
    (hlines : SameLines w w' output sourceDir file) {diagnostic : Diagnostic}
    (hmem : diagnostic ∈ (decode output).items) :
    linesIn w d sourceDir diagnostic = linesIn w' d sourceDir diagnostic := by
  cases hspan : diagnostic.span with
  | none => simp only [linesIn, hspan]
  | some ends =>
    obtain ⟨start, stop⟩ := ends
    cases hsource : diagnostic.source with
    | some source => simp only [linesIn, hspan, hsource]
    | none =>
      cases hblank : diagnostic.file.isBlank with
      | true => simp only [linesIn, hspan, hsource, sourceIn, hblank, if_true]
      | false =>
        cases hfile : diagnostic.file with
        | string name =>
          have hat : linesAt w (Path.resolve d (sourceDir ++ Path.ofText name)) start stop =
              linesAt w' (Path.resolve d (sourceDir ++ Path.ofText name)) start stop := by
            unfold linesAt
            by_cases hp : Path.resolve d (sourceDir ++ Path.ofText name) = file
            · rw [hp, hlines start stop ⟨diagnostic, hmem, hspan, hsource, name, hfile,
                (resolve_below hroot _ _ d).trans hp⟩]
            · rw [h.file?_eq _ hp]
          rw [hfile] at hblank
          rw [linesIn_of_named hspan hsource hfile hblank,
            linesIn_of_named hspan hsource hfile hblank, hat]
        | _ => simp only [linesIn, hspan, hsource, sourceIn, hfile]

theorem agree_documentOutcome (h : w.SameBut file w') (hroot : sourceDir.root ≠ .relative)
    (hlines : SameLines w w' output sourceDir file) (workingDir : Text) :
    Agree w w' Eq (documentOutcome workingDir sourceDir output)
      (documentOutcome workingDir sourceDir output) := by
  intro σ σ' hσ
  refine .of_hasEffect hσ (hasEffect_documentOutcome _ _ _) (hasEffect_documentOutcome _ _ _)
    (.of_eq ?_)
  rw [mapM_congr fun diagnostic hmem => ?_]
  rw [Diagnostic.issueIn, linesIn_eq h hroot hlines hmem, Diagnostic.issueIn]

end Biome

/-! ### Stages -/

namespace Tool

theorem agree_outcome (h : w.SameBut file w') {t : Tool}
    (hlines : t = .biome → s.reporter = .document →
      sourceDir.root ≠ .relative ∧ Biome.SameLines w w' output sourceDir file)
    (workingDir : Path) (exitCode : Int) :
    Agree w w' Eq (t.outcome s workingDir sourceDir exitCode output)
      (t.outcome s workingDir sourceDir exitCode output) := by
  cases t with
  | biome =>
    change Agree w w' Eq (Biome.outcome s.reporter workingDir.toText sourceDir exitCode output)
      (Biome.outcome s.reporter workingDir.toText sourceDir exitCode output)
    unfold Biome.outcome
    cases hreporter : s.reporter with
    | annotations => exact Action.agree_ofExcept (.of_eq rfl)
    | document =>
      obtain ⟨hroot, hlines⟩ := hlines rfl hreporter
      exact Biome.agree_documentOutcome h hroot hlines _
  | _ => exact Action.agree_ofExcept (.of_eq rfl)

/-- A tool that is started prints in both workspaces what its command prints in the first. -/
theorem agree_run (h : w.SameBut file w') (s : Settings) (interpreter : Option Text) (t : Tool) :
    Agree w w' (fun raw raw' => raw' = raw ∧ (raw.refusal = none → ∃ r,
        Command.resultIn w (t.command s interpreter) s.limit = .ok r ∧ raw.output = r.output))
      (t.run s interpreter) (t.run s interpreter) := by
  unfold run
  split
  · exact agree_pure ⟨rfl, nofun⟩
  · refine (Action.agree_execute none (Command.resultIn_eq (h.agree _))).bind fun r r' hr => ?_
    obtain ⟨rfl, hresult⟩ := hr
    exact agree_pure ⟨rfl, fun _ => ⟨_, hresult, rfl⟩⟩

end Tool

namespace Pipeline

/-- The spans that Biome gives for a file have the same lines in two workspaces, if it takes part
and prints a document. -/
def SameSpans (w w' : Workspace) (file : Path) (s : Settings) (interpreter : Option Text) : Prop :=
  takesPart w s .biome = true → s.reporter = .document →
    ∀ r, Command.resultIn w (Tool.biome.command s interpreter) s.limit = .ok r →
      Biome.SameLines w w' r.output s.jsRoot file

variable {c : Context} {tools : List Tool}

theorem agree_isActive (h : w.SamePlaces w') (hroot : (s.root .js).Resolved) (t : Tool) :
    Agree w w' (fun b b' => b' = b ∧ (t.group = .js → b = takesPart w s t))
      (isActive s t) (isActive s t) := by
  intro σ σ' hσ
  refine .of_hasEffect hσ (hasEffect_isActive s t) (hasEffect_isActive s t) (.ok ⟨?_, ?_⟩)
  · rw [Tool.isAvailable, Tool.isAvailable, h.isFile_eq]
  · intro ht
    rw [takesPart, isAvailable_js hroot ht]

theorem agree_runTool (h : w.SameBut file w') (hroot : (c.settings.root .js).Resolved) {t : Tool}
    (hpart : t = .biome → takesPart w c.settings t = true)
    (hspans : SameSpans w w' file c.settings c.interpreter) :
    Agree w w' Eq (runTool c t) (runTool c t) := by
  refine (agree_say _ _).bind_eq fun _ => ?_
  refine (Tool.agree_run h c.settings c.interpreter t).bind fun raw raw' hraw => ?_
  obtain ⟨rfl, hresult⟩ := hraw
  split
  · exact agree_pure rfl
  · next hstarted =>
    obtain ⟨r, hr, houtput⟩ := hresult hstarted
    refine Tool.agree_outcome h (fun hbiome hreporter => ?_) _ _
    subst hbiome
    exact ⟨hroot.absolute, houtput ▸ hspans (hpart rfl) hreporter r hr⟩

theorem agree_runStage (h : w.SameBut file w') (hroot : (c.settings.root .js).Resolved)
    (hspans : SameSpans w w' file c.settings c.interpreter) (t : Tool) :
    Agree w w' Eq (runStage c t) (runStage c t) := by
  refine (agree_isActive h.toSamePlaces hroot t).bind fun active active' hactive => ?_
  obtain ⟨rfl, hpart⟩ := hactive
  split
  · next htrue =>
    refine agree_runTool h hroot (fun hbiome => ?_) hspans
    rw [← hpart (by rw [hbiome]; rfl), htrue]
  · exact agree_pure rfl

/-- A stage comes to the same end in both workspaces. -/
theorem agree_stageIssues (h : w.SameBut file w') (hroot : (c.settings.root .js).Resolved)
    (hspans : SameSpans w w' file c.settings c.interpreter) (t : Tool) :
    Agree w w' Eq (stageIssues c t).run (stageIssues c t).run := by
  rw [run_stageIssues]
  refine (agree_runStage h hroot hspans t).bind_eq fun outcome => ?_
  split
  · exact agree_pure rfl
  · exact (agree_say _ _).bind_eq fun _ => (agree_say _ _).bind_eq fun _ => agree_pure rfl

theorem agree_allIssues (h : w.SameBut file w') (hroot : (c.settings.root .js).Resolved)
    (hspans : SameSpans w w' file c.settings c.interpreter) (tools : List Tool) :
    Agree w w' Eq (allIssues c tools).run (allIssues c tools).run := by
  have hgroup (g : Tool.Group) :
      Agree w w' Eq (groupIssues c tools g).run (groupIssues c tools g).run := by
    rw [run_groupIssues]
    refine (Action.agree_enter h.toSamePlaces _).bind_eq fun _ => ?_
    exact (Action.agree_run_mapM _ (agree_stageIssues h hroot hspans)).run_bind
      fun found => agree_pure rfl
  exact (Action.agree_run_mapM _ hgroup).run_bind fun found => agree_pure rfl

/-! ### The run -/

theorem agree_interpreterFor (h : w.SameBut file w') (hroot : (s.root .js).Resolved)
    (tools : List Tool) :
    Agree w w' (fun i i' => i' = i ∧ i = interpreterIn w s tools)
      (interpreterFor s tools) (interpreterFor s tools) := by
  intro σ σ' hσ
  obtain ⟨hprobed, hinterpreter⟩ : probed w s tools = probed w' s tools ∧
      interpreterIn w s tools = interpreterIn w' s tools :=
    @probed_agree w w' σ.directory s h.toSamePlaces tools fun call _ => h.agree call.command
  refine .of_hasEffect hσ (hasEffect_interpreterFor hroot) ?_ (.ok ⟨rfl, rfl⟩)
  rw [hprobed, hinterpreter]
  exact hasEffect_interpreterFor hroot

/-- A run comes to the same end in two workspaces that have the same files, though one of these may
have another text. -/
theorem agree_run (h : w.SameBut file w') (hroot : (s.root .js).Resolved)
    (hspans : SameSpans w w' file s (interpreterIn w s tools)) (workingDir : Option Path) :
    Agree w w' Eq (run s tools workingDir) (run s tools workingDir) := by
  rw [run_eq]
  refine Action.agree_get_bind fun σ σ' hσ => ?_
  rw [hσ.directory]
  refine ((agree_interpreterFor h hroot tools).bind fun i i' hi => ?_) hσ
  obtain ⟨rfl, rfl⟩ := hi
  refine (Action.agree_returning h.toSamePlaces (agree_allIssues h hroot hspans tools)).bind_eq
    fun result => ?_
  unfold closing
  cases result with
  | ok issues => exact (agree_say _ _).bind_eq fun _ => agree_pure rfl
  | error failure => exact agree_pure rfl

end Pipeline

end LintReport
