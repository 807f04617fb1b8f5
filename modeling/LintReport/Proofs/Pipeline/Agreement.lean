import LintReport.Proofs.Pipeline.Effect
import LintReport.Proofs.Session.Alike

/-!
Two workspaces. A run asks a workspace for its files and directories and for the programs behind the
commands that it runs, and for nothing else. So a run is the same in another workspace with the same
files, whatever all other programs do there.
-/
namespace LintReport

/-- The same files and the same directories. -/
structure Workspace.SameTree (w w' : Workspace) : Prop where
  files : w.files = w'.files
  directories : w.directories = w'.directories

/-- The same program behind a command. -/
def Workspace.Agree (w w' : Workspace) (command : List Text) : Prop :=
  w.process? command = w'.process? command

section

variable {w w' : Workspace} {d : Path}

namespace Workspace.SameTree

theorem file?_eq (h : w.SameTree w') (p : Path) : w.file? p = w'.file? p := by
  rw [file?, h.files, file?]

theorem isFile_eq (h : w.SameTree w') (p : Path) : w.isFile p = w'.isFile p := by
  rw [isFile, h.file?_eq, isFile]

theorem isDirectory_eq (h : w.SameTree w') (p : Path) : w.isDirectory p = w'.isDirectory p := by
  rw [isDirectory, h.files, h.directories, isDirectory]

theorem samePlaces (h : w.SameTree w') : w.SamePlaces w' := ⟨h.isFile_eq, h.isDirectory_eq⟩

theorem read_eq (h : w.SameTree w') (p : Path) : w.read d p = w'.read d p := by
  simp only [read, h.file?_eq, h.isDirectory_eq]

end Workspace.SameTree

open Workspace (SameTree Agree)

theorem Command.resultIn_eq {command : List Text} {limit : Option Seconds}
    (h : Agree w w' command) : Command.resultIn w command limit = resultIn w' command limit := by
  cases command with
  | nil => rfl
  | cons word arguments => rw [resultIn, resultIn, h]

theorem Biome.issueIn_eq (h : w.SameTree w') (workingDir : Text) (sourceDir : Path)
    (diagnostic : Diagnostic) :
    diagnostic.issueIn w d workingDir sourceDir = diagnostic.issueIn w' d workingDir sourceDir := by
  have hsource (file : Json) : sourceIn w d sourceDir file = sourceIn w' d sourceDir file := by
    simp only [sourceIn, h.read_eq]
  have hlines : linesIn w d sourceDir diagnostic = linesIn w' d sourceDir diagnostic := by
    simp only [linesIn, hsource]
  rw [Diagnostic.issueIn, hlines, Diagnostic.issueIn]

theorem Tool.value_outcome_eq (h : w.SameTree w') (s : Settings) (workingDir sourceDir : Path)
    (t : Tool) (exitCode : Int) (output : Text) :
    Action.value w d (t.outcome s workingDir sourceDir exitCode output) =
      Action.value w' d (t.outcome s workingDir sourceDir exitCode output) := by
  cases t with
  | biome =>
    change Action.value w d (Biome.outcome s.reporter workingDir.toText sourceDir exitCode output) =
      Action.value w' d (Biome.outcome s.reporter workingDir.toText sourceDir exitCode output)
    cases s.reporter with
    | annotations =>
      exact (Action.value_ofExcept _).trans (Action.value_ofExcept _).symm
    | document =>
      have hissues : Biome.Diagnostic.issueIn w d workingDir.toText sourceDir =
          Biome.Diagnostic.issueIn w' d workingDir.toText sourceDir :=
        funext fun diagnostic => Biome.issueIn_eq h _ _ _
      have hvalue := (Biome.hasEffect_documentOutcome (w := w) (d := d) workingDir.toText
        sourceDir output).value_eq
      have hvalue' := (Biome.hasEffect_documentOutcome (w := w') (d := d) workingDir.toText
        sourceDir output).value_eq
      rw [hissues] at hvalue
      exact hvalue.trans hvalue'.symm
  | _ => exact (Action.value_ofExcept _).trans (Action.value_ofExcept _).symm

end

namespace Pipeline

open Workspace (SamePlaces SameTree Agree)

variable {w w' : Workspace} {d : Path} {s : Settings} {c : Context}

theorem stageOutcome_eq (h : w.SameTree w') {t : Tool}
    (ht : ∀ call, stageCall c t = some call → Agree w w' call.command) :
    stageOutcome w c t = stageOutcome w' c t := by
  unfold stageOutcome
  by_cases hstart : canStart c t = true
  · have hagree : Agree w w' (t.command c.settings c.interpreter) :=
      ht _ (by rw [stageCall, if_pos hstart])
    simp only [hstart, if_true, Command.resultIn_eq hagree, Tool.value_outcome_eq h]
  · simp [hstart]

/-- Stages with the same programs behind the commands that they run amount to the same. -/
theorem stages_agree (h : w.SameTree w') (ts : List Tool)
    (hcalls : ∀ call ∈ callsOf w c ts, Agree w w' call.command) :
    resultOf w c ts = resultOf w' c ts ∧ callsOf w c ts = callsOf w' c ts := by
  induction ts with
  | nil => exact ⟨rfl, rfl⟩
  | cons t ts ih =>
    rw [callsOf_cons] at hcalls
    have houtcome : stageOutcome w c t = stageOutcome w' c t := by
      refine stageOutcome_eq h fun call hcall => hcalls call ?_
      exact List.mem_append_left _ (by rw [hcall]; exact List.mem_singleton_self call)
    have hresult : stageResult w c t = stageResult w' c t := by
      rw [stageResult, houtcome, stageResult]
    have hsucceeds : succeeds w c t = succeeds w' c t := by
      rw [← goesOn_stageResult, hresult, goesOn_stageResult]
    rw [callsOf_cons, callsOf_cons, resultOf, resultOf, ← hresult, ← hsucceeds]
    cases hs : succeeds w c t with
    | true =>
      rw [hs, if_pos rfl] at hcalls
      obtain ⟨ihresult, ihcalls⟩ := ih fun call hcall => hcalls call (List.mem_append_right _ hcall)
      exact ⟨by rw [ihresult], by rw [ihcalls]⟩
    | false =>
      rw [← goesOn_stageResult] at hs
      refine ⟨?_, rfl⟩
      rcases hr : stageResult w c t with fault | failure | issues
      · rfl
      · rfl
      · rw [hr] at hs
        cases hs

theorem takesPart_eq (h : w.SamePlaces w') (s : Settings) (t : Tool) :
    takesPart w s t = takesPart w' s t := by
  rw [takesPart, Tool.isAvailable, h.isFile_eq, takesPart, Tool.isAvailable]

theorem activeIn_eq (h : w.SamePlaces w') (s : Settings) (tools : List Tool) (g : Tool.Group) :
    activeIn w s tools g = activeIn w' s tools g := by
  rw [activeIn, funext (takesPart_eq h s), activeIn]

theorem stages_tree_eq (h : w.SameTree w') (s : Settings) (tools : List Tool) :
    stages w s tools = stages w' s tools := by
  rw [stages_eq, activeIn_eq h.samePlaces, activeIn_eq h.samePlaces, stages_eq]

theorem tried_eq {words : List Text}
    (hcalls : ∀ word ∈ tried w s words, Agree w w' [word, "--version"]) :
    tried w s words = tried w' s words ∧
      (tried w s words).find? (answers w s) = (tried w s words).find? (answers w' s) := by
  induction words with
  | nil => exact ⟨rfl, rfl⟩
  | cons word words ih =>
    rw [tried] at hcalls
    have hanswers : answers w s word = answers w' s word := by
      rw [answers, Command.resultIn_eq (hcalls word List.mem_cons_self), answers]
    rw [tried, tried, ← hanswers, List.find?_cons, List.find?_cons, ← hanswers]
    cases hword : answers w s word with
    | true => exact ⟨rfl, rfl⟩
    | false =>
      rw [hword] at hcalls
      obtain ⟨htried, hfind⟩ := ih fun x hx => hcalls x (List.mem_cons_of_mem _ hx)
      exact ⟨congrArg (word :: ·) htried, hfind⟩

theorem probed_agree (h : w.SamePlaces w') {tools : List Tool}
    (hcalls : ∀ call ∈ (probed w s tools).map (probeCall s d), Agree w w' call.command) :
    probed w s tools = probed w' s tools ∧ interpreterIn w s tools = interpreterIn w' s tools := by
  have hwords : ∀ word ∈ probed w s tools, Agree w w' [word, "--version"] :=
    fun word hword => hcalls _ (List.mem_map_of_mem hword)
  unfold interpreterIn
  unfold probed at hwords ⊢
  rw [← activeIn_eq h]
  split
  · exact ⟨rfl, rfl⟩
  · next hactive =>
    rw [if_neg hactive] at hwords
    obtain ⟨htried, hfind⟩ := tried_eq hwords
    exact ⟨htried, by rw [← htried]; exact hfind⟩

end Pipeline

end LintReport
