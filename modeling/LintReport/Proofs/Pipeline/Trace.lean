import LintReport.Proofs.Pipeline.Agreement
import LintReport.Proofs.Tool.Command

/-!
The trace of a run. Of a run that returns it is known which commands it ran, in which order and
where: the questions to the interpreters, and then the command of every stage up to the first one
that fails. Its result is that of these stages, and no program behind another command has a part
in it.
-/
namespace LintReport.Pipeline

open LintReport.Action (HasEffect)

variable {w : Workspace} {d : Path} {c : Context} {s : Settings}

/-- The issues of a stage that succeeds. -/
def issuesOf (w : Workspace) (c : Context) (t : Tool) : List Issue :=
  match stageOutcome w c t with
  | .ok (.ok issues) => issues
  | _ => []

/-- A stage gives its issues, be it none. -/
def Succeeds (w : Workspace) (c : Context) (t : Tool) : Prop :=
  stageOutcome w c t = .ok (.ok (issuesOf w c t))

/-- A stage fails with an output. -/
def Fails (w : Workspace) (c : Context) (t : Tool) (output : Text) : Prop :=
  stageOutcome w c t = .ok (.failed output)

/-- What a run over the stages `active` has done: the words that it asked, the commands of its
stages, and its result. -/
structure IsTrace (w : Workspace) (s : Settings) (c : Context) (active : List Tool)
    (result : Except Failure (List Issue)) (words : List Text) (reached : List Tool) : Prop where
  active_eq : active = Tool.all.filter (takesPart w s)
  words_eq : words = if ∃ t ∈ active, t.group = .js then
    if answers w s s.bun then [s.bun] else [s.bun, s.node] else []
  interpreter_eq : c.interpreter = words.find? (answers w s)
  once : ((reached.filterMap (stageCall c)).map Call.command).Nodup
  refused : ∀ t ∈ reached, stageCall c t = none ↔ t.group = .js ∧ ∀ word ∈ words,
    answers w s word = false
  refused_fails : ∀ t ∈ reached, stageCall c t = none → Fails w c t Tool.noInterpreter
  complete : (∀ t ∈ active, ∀ output, ¬ Fails w c t output) →
    reached = active ∧ (∀ t ∈ active, Succeeds w c t) ∧ result = .ok (active.flatMap (issuesOf w c))
  failed : ∀ t ∈ active, ∀ output, Fails w c t output →
    ∃ before first after output, active = before ++ first :: after ∧
      (∀ u ∈ before, Succeeds w c u) ∧ Fails w c first output ∧ reached = before ++ [first] ∧
      result = .error ⟨first, output⟩

theorem succeeds_of_eq {t : Tool} {issues : List Issue} (h : stageOutcome w c t = .ok (.ok issues)) :
    Succeeds w c t ∧ succeeds w c t = true ∧ issuesOf w c t = issues := by
  simp [Succeeds, succeeds, issuesOf, h]

/-- Stages that amount to a result either all succeed, or there is a first one that fails. -/
theorem resultOf_eq_ok {ts : List Tool} {result : Except Failure (List Issue)}
    (h : resultOf w c ts = .ok result) :
    ((∀ t ∈ ts, Succeeds w c t) ∧ ran w c ts = ts ∧ result = .ok (ts.flatMap (issuesOf w c))) ∨
      ∃ before first after output, ts = before ++ first :: after ∧
        (∀ u ∈ before, Succeeds w c u) ∧ Fails w c first output ∧
        ran w c ts = before ++ [first] ∧ result = .error ⟨first, output⟩ := by
  induction ts generalizing result with
  | nil => exact Or.inl ⟨by simp, rfl, (Except.ok.inj h).symm⟩
  | cons t ts ih =>
    rw [resultOf, stageResult] at h
    rcases ho : stageOutcome w c t with fault | issues | output
    · rw [ho] at h
      cases h
    · obtain ⟨hsucceeds, hgo, hissues⟩ := succeeds_of_eq ho
      rw [ho] at h
      have hran : ran w c (t :: ts) = t :: ran w c ts := by rw [ran, if_pos hgo]
      rcases hr : resultOf w c ts with fault | rest
      · rw [hr] at h
        cases h
      · rw [hr] at h
        have hresult : Except.map (issues ++ ·) rest = result := Except.ok.inj h
        rcases ih hr with ⟨hall, hranAll, rfl⟩ | ⟨before, first, after, output, rfl, hbefore,
          hfirst, hranFirst, rfl⟩
        · left
          refine ⟨?_, by rw [hran, hranAll], ?_⟩
          · intro u hu
            rcases List.mem_cons.mp hu with rfl | hu
            · exact hsucceeds
            · exact hall u hu
          · rw [← hresult, List.flatMap_cons, hissues]
            rfl
        · right
          refine ⟨t :: before, first, after, output, rfl, ?_, hfirst, by rw [hran, hranFirst]; rfl,
            hresult.symm⟩
          intro u hu
          rcases List.mem_cons.mp hu with rfl | hu
          · exact hsucceeds
          · exact hbefore u hu
    · rw [ho] at h
      have hran : ran w c (t :: ts) = [t] := by
        rw [ran, if_neg (by simp [succeeds, ho])]
      exact Or.inr ⟨[], t, ts, output, rfl, by simp, ho, hran, (Except.ok.inj h).symm⟩

/-! ### The commands of the stages -/

theorem command_of_stageCall {t : Tool} {call : Call} (h : stageCall c t = some call) :
    call.command = t.command c.settings c.interpreter := by
  unfold stageCall at h
  split at h
  · rw [← Option.some.inj h]
  · cases h

theorem nodup_commands {ts : List Tool} (hts : ts.Nodup)
    (hroot : c.settings.jsRoot.root ≠ .relative) :
    ((ts.filterMap (stageCall c)).map Call.command).Nodup := by
  rw [List.Nodup, List.pairwise_map, List.pairwise_filterMap]
  refine hts.imp fun {t u} hne call hcall call' hcall' heq => hne ?_
  rw [command_of_stageCall hcall, command_of_stageCall hcall'] at heq
  exact Tool.command_injective hroot heq

theorem ran_sublist (ts : List Tool) : (ran w c ts).Sublist ts := by
  induction ts with
  | nil => exact List.Sublist.slnil
  | cons t ts ih =>
    rw [ran]
    split
    · exact ih.cons_cons t
    · exact (List.nil_sublist ts).cons_cons t

/-- The order of the groups is that of the tools. -/
theorem stages_all : stages w s Tool.all = Tool.all.filter (takesPart w s) := by
  have hall : Tool.all = (Tool.all.filter fun t : Tool => t.group = .php) ++
      Tool.all.filter fun t : Tool => t.group = .js := by decide
  rw [stages_eq, activeIn, activeIn, ← List.filter_append, ← hall]

theorem activeIn_js_eq_nil :
    activeIn w s Tool.all .js = [] ↔ ¬ ∃ t ∈ stages w s Tool.all, t.group = .js := by
  simp only [stages_all, activeIn, List.filter_eq_nil_iff, List.mem_filter]
  constructor
  · rintro h ⟨t, ⟨hmem, hpart⟩, hgroup⟩
    exact h t ⟨hmem, by simpa using hgroup⟩ hpart
  · rintro h t ⟨hmem, hgroup⟩ hpart
    exact h ⟨t, ⟨hmem, hpart⟩, by simpa using hgroup⟩

theorem probed_all : probed w s Tool.all = if ∃ t ∈ stages w s Tool.all, t.group = .js then
    if answers w s s.bun then [s.bun] else [s.bun, s.node] else [] := by
  have htried : tried w s s.interpreters =
      if answers w s s.bun then [s.bun] else [s.bun, s.node] := by
    simp only [Settings.interpreters, tried]
    split
    · rfl
    · split <;> rfl
  rw [probed, htried]
  by_cases h : ∃ t ∈ stages w s Tool.all, t.group = .js
  · rw [if_neg (fun hnil => activeIn_js_eq_nil.mp hnil h), if_pos h]
  · rw [if_pos (activeIn_js_eq_nil.mpr h), if_neg h]

theorem stageCall_eq_none {t : Tool} :
    stageCall c t = none ↔ t.group = .js ∧ c.interpreter = none := by
  cases hg : t.group <;> cases hi : c.interpreter <;> simp [stageCall, canStart, hg, hi]

theorem fails_of_stageCall_eq_none {t : Tool} (h : stageCall c t = none) :
    Fails w c t Tool.noInterpreter := by
  obtain ⟨hgroup, hnone⟩ := stageCall_eq_none.mp h
  simp [Fails, stageOutcome, canStart, hgroup, hnone]

/-! ### The trace -/

theorem isTrace {workingDir : Option Path} {result : Except Failure (List Issue)}
    (hroot : s.jsRoot.root ≠ .relative)
    (h : resultOf w (contextOf w d s Tool.all workingDir) (stages w s Tool.all) = .ok result) :
    IsTrace w s (contextOf w d s Tool.all workingDir) (stages w s Tool.all) result
      (probed w s Tool.all)
      (ran w (contextOf w d s Tool.all workingDir) (stages w s Tool.all)) := by
  have hcases := resultOf_eq_ok h
  have hnodup : (stages w s Tool.all).Nodup := by
    rw [stages_all]
    exact (show Tool.all.Nodup by decide).filter _
  refine {
    active_eq := stages_all
    words_eq := probed_all
    interpreter_eq := rfl
    once := nodup_commands (hnodup.sublist (ran_sublist _)) hroot
    refused := fun t ht => ?_
    refused_fails := fun t ht hnone => fails_of_stageCall_eq_none hnone
    complete := fun hfails => ?_
    failed := fun t ht output hfails => ?_ }
  · have hwords : (contextOf w d s Tool.all workingDir).interpreter = none ↔
        ∀ word ∈ probed w s Tool.all, answers w s word = false := by
      change (probed w s Tool.all).find? (answers w s) = none ↔ _
      rw [List.find?_eq_none]
      simp
    rw [stageCall_eq_none, hwords]
  · rcases hcases with ⟨hall, hran, hresult⟩ | ⟨before, first, after, output, heq, -, hfirst, -⟩
    · exact ⟨hran, hall, hresult⟩
    · exact absurd hfirst (hfails first (heq ▸ by simp) output)
  · rcases hcases with ⟨hall, -⟩ | hfirst
    · have hsucceeds : Succeeds w _ t := hall t ht
      rw [Succeeds, show stageOutcome w _ t = .ok (.failed output) from hfails] at hsucceeds
      cases hsucceeds
    · exact hfirst

/-- A run has the same effect in two workspaces with the same tree, if they agree on the programs
behind the commands that it runs. -/
theorem hasEffect_run_agree {w' : Workspace} {tools : List Tool} {workingDir : Option Path}
    (hd : d.Resolved) (hdir : w.isDirectory d) (hroot : ∀ g, (s.root g).Resolved)
    (hroots : ∀ g, w.isDirectory (s.root g)) (htree : w.SameTree w')
    (hcalls : ∀ call ∈ (probed w s tools).map (probeCall s d) ++
      callsOf w (contextOf w d s tools workingDir) (stages w s tools),
      w.Agree w' call.command) :
    HasEffect w' d (run s tools workingDir)
      ⟨resultOf w (contextOf w d s tools workingDir) (stages w s tools),
        (probed w s tools).map (probeCall s d) ++
          callsOf w (contextOf w d s tools workingDir) (stages w s tools), d⟩ := by
  obtain ⟨hprobed, hinterpreter⟩ := probed_agree htree.samePlaces
    fun call hcall => hcalls call (List.mem_append_left _ hcall)
  obtain ⟨hresult, hstageCalls⟩ := stages_agree htree (stages w s tools)
    fun call hcall => hcalls call (List.mem_append_right _ hcall)
  have hcontext : contextOf w d s tools workingDir = contextOf w' d s tools workingDir := by
    rw [contextOf, hinterpreter, contextOf]
  rw [hresult, hstageCalls, hprobed, hcontext, stages_tree_eq htree]
  exact hasEffect_run_stages hd (htree.isDirectory_eq d ▸ hdir) hroot
    (htree.isDirectory_eq _ ▸ hroots .php) fun _ => htree.isDirectory_eq _ ▸ hroots .js

/-- What a run that returns has done, and that no program behind any other command counts. -/
theorem run_trace {σ₀ σ₁ σ σ' : Session} {phpRoot jsRoot : Option Text} {overrides : Table Json}
    {workingDir : Option Path} {result : Except Failure (List Issue)}
    (hσ₀ : σ₀.directory.Resolved)
    (hload : (Settings.load phpRoot jsRoot overrides).run σ₀ = .ok s σ₁) (hσ : σ.Placed)
    (hphp : σ.workspace.isDirectory s.phpRoot) (hjs : σ.workspace.isDirectory s.jsRoot)
    (hrun : (run s Tool.all workingDir).run σ = .ok result σ') :
    ∃ c active words reached, c.settings = s ∧ c.workingDir = workingDir.getD σ.directory ∧
      IsTrace σ.workspace s c active result words reached ∧
      σ'.calls = σ.calls ++ (words.map (probeCall s σ.directory) ++
        reached.filterMap (stageCall c)) ∧
      σ'.directory = σ.directory ∧ σ'.workspace = σ.workspace ∧
      ∀ τ : Session, τ.directory = σ.directory → σ.workspace.SameTree τ.workspace →
        (∀ call ∈ words.map (probeCall s σ.directory) ++ reached.filterMap (stageCall c),
          σ.workspace.Agree τ.workspace call.command) →
        ∃ τ', (run s Tool.all workingDir).run τ = .ok result τ' ∧
          τ'.calls = τ.calls ++ (words.map (probeCall s σ.directory) ++
            reached.filterMap (stageCall c)) := by
  have hroot : ∀ g, (s.root g).Resolved := Settings.resolved_roots hσ₀ hload
  have hroots : ∀ g, σ.workspace.isDirectory (s.root g) := by
    intro g
    cases g with
    | php => exact hphp
    | js => exact hjs
  have heffect : HasEffect σ.workspace σ.directory (run s Tool.all workingDir) _ :=
    hasEffect_run_stages hσ.resolved hσ.exists_directory hroot hphp fun _ => hjs
  obtain ⟨hresult, hcalled, hdirectory, hworkspace⟩ := heffect.of_run hrun
  replace hresult : resultOf σ.workspace (contextOf σ.workspace σ.directory s Tool.all workingDir)
      (stages σ.workspace s Tool.all) = .ok result := hresult
  refine ⟨_, _, _, _, rfl, rfl, isTrace (hroot .js).absolute hresult, hcalled, hdirectory,
    hworkspace, ?_⟩
  intro τ hdir htree hcalls
  have hagree : HasEffect τ.workspace σ.directory (run s Tool.all workingDir) _ :=
    hasEffect_run_agree hσ.resolved hσ.exists_directory hroot hroots htree hcalls
  rw [hresult, ← hdir] at hagree
  obtain ⟨records, shown, hrun'⟩ := hagree.run_eq
  exact ⟨_, hrun', by rw [← hdir]; rfl⟩

/-- A session with one tool, which finds nothing. -/
def psalmSession : Session where
  workspace := { files := [(⟨.slash, ["project", "vendor", "bin", "psalm"]⟩, [])]
                 tools := [("psalm", { output := [0x5B, 0x5D] })] }
  directory := Snapshot.home

/-- A session with three tools. Two of them are scripts, and only Node is there to run them. -/
def scriptSession (psalm esLint styleLint : Process) : Session where
  workspace := {
    files := [(⟨.slash, ["project", "vendor", "bin", "psalm"]⟩, []),
      (⟨.slash, ["project", "node_modules", "eslint", "bin", "eslint.js"]⟩, []),
      (⟨.slash, ["project", "node_modules", "stylelint", "bin", "stylelint.mjs"]⟩, [])]
    tools := [("psalm", psalm), ("eslint.js", esLint), ("stylelint.mjs", styleLint)]
    versions := [("node", {})] }
  directory := Snapshot.home

/-- A tool that finds nothing. -/
def findsNothing : Process := { output := [0x5B, 0x5D] }

/-- The first script breaks down, so the second one is not reached. -/
def brokenScriptSession (unreached : Process) : Session :=
  scriptSession findsNothing { exitCode := 2, output := [0x78] } unreached

/-- The commands of a run in which the first script breaks down. -/
def brokenScriptCommands : List (List Text) :=
  [["bun", "--version"], ["node", "--version"],
    ["/project/vendor/bin/psalm", "--no-cache", "--memory-limit=-1", "--output-format=json"],
    ["node", "/project/node_modules/eslint/bin/eslint.js", "--format=json", "resources"]]

/-- How a run failed, and which commands it ran until then. -/
def failedAfter? : EStateM.Result Fault Session (Except Failure (List Issue)) →
    Option (Failure × List (List Text))
  | .ok (.error failure) σ => some (failure, σ.calls.map Call.command)
  | _ => none

theorem eq_of_failedAfter? {r : EStateM.Result Fault Session (Except Failure (List Issue))}
    {failure : Failure} {commands : List (List Text)}
    (h : failedAfter? r = some (failure, commands)) :
    ∃ σ, r = .ok (.error failure) σ ∧ σ.calls.map Call.command = commands := by
  unfold failedAfter? at h
  split at h
  · cases h
    exact ⟨_, rfl, rfl⟩
  · cases h

/-- Both interpreters are asked and the second stage fails. What the program behind the third one
does has no part in it. -/
theorem run_trace_brokenScriptSession :
    ∃ s σ₁ σ' c reached,
      (Settings.load none none []).run (brokenScriptSession findsNothing) = .ok s σ₁ ∧
      (run s Tool.all none).run (brokenScriptSession findsNothing) =
        .ok (.error ⟨.esLint, Text.ofString "x"⟩) σ' ∧
      IsTrace (brokenScriptSession findsNothing).workspace s c [.psalm, .esLint, .styleLint]
        (.error ⟨.esLint, Text.ofString "x"⟩) ["bun", "node"] reached ∧
      σ'.calls.map Call.command = brokenScriptCommands ∧
      ∃ τ', (run s Tool.all none).run (brokenScriptSession { hangs := true }) =
        .ok (.error ⟨.esLint, Text.ofString "x"⟩) τ' ∧ τ'.calls = σ'.calls := by
  have hplaced : (brokenScriptSession findsNothing).Placed :=
    ⟨Snapshot.resolved_home, by decide⟩
  obtain ⟨s, σ₁, hload, hphp, hjs, hbun, hnode, hactive, hanswers, hended⟩ : ∃ s σ₁,
      (Settings.load none none []).run (brokenScriptSession findsNothing) = .ok s σ₁ ∧
        (brokenScriptSession findsNothing).workspace.isDirectory s.phpRoot ∧
        (brokenScriptSession findsNothing).workspace.isDirectory s.jsRoot ∧
        s.bun = Text.ofString "bun" ∧ s.node = Text.ofString "node" ∧
        Tool.all.filter (takesPart (brokenScriptSession findsNothing).workspace s) =
          [.psalm, .esLint, .styleLint] ∧
        answers (brokenScriptSession findsNothing).workspace s "bun" = false ∧
        failedAfter? ((run s Tool.all none).run (brokenScriptSession findsNothing)) =
          some (⟨.esLint, Text.ofString "x"⟩, brokenScriptCommands) :=
    ⟨_, _, rfl, by decide, by decide, rfl, rfl, by decide, by decide, by decide +kernel⟩
  obtain ⟨σ', hrun, hcommands⟩ := eq_of_failedAfter? hended
  obtain ⟨c, active, words, reached, -, -, htrace, hcalls, -, -, hother⟩ :=
    run_trace Snapshot.resolved_home hload hplaced hphp hjs hrun
  obtain rfl := htrace.active_eq.trans hactive
  have hwords : words = [Text.ofString "bun", Text.ofString "node"] := by
    rw [htrace.words_eq, if_pos ⟨.esLint, by decide⟩, hbun, hnode, hanswers]
    rfl
  subst hwords
  have hagree : ∀ command ∈ brokenScriptCommands,
      (brokenScriptSession findsNothing).workspace.Agree
        (brokenScriptSession { hangs := true }).workspace command := by
    intro command hcommand
    simp only [brokenScriptCommands, List.mem_cons, List.not_mem_nil, or_false] at hcommand
    rcases hcommand with rfl | rfl | rfl | rfl <;> rfl
  obtain ⟨τ', hrun', hcalls'⟩ := hother (brokenScriptSession { hangs := true }) rfl
    ⟨rfl, rfl⟩ fun call hcall => hagree _ (hcommands ▸ hcalls ▸ List.mem_map_of_mem hcall)
  exact ⟨s, σ₁, σ', c, reached, hload, hrun, htrace, hcommands, τ', hrun',
    hcalls'.trans hcalls.symm⟩

end LintReport.Pipeline
