import LintReport.Proofs.Pipeline.Stage
import LintReport.Proofs.Settings.Roots

/-!
The effect of a run. The stages of the two groups follow one another as one sequence, each in the
root of its group, and before them come the questions to the interpreters. Where the roots are
resolved and exist, a run has the effect that its stages have.
-/
namespace LintReport.Pipeline

open LintReport.Action (HasEffect hasEffect_pure hasEffect_enter hasEffect_anyM hasEffect_get_bind)

variable {w : Workspace} {d d' d'' : Path} {c : Context} {s : Settings}

/-! ### Sequences of stages -/

/-- Does a run go on after this? -/
def goesOn : Except Fault (Except Failure (List Issue)) → Bool
  | .ok (.ok _) => true
  | _ => false

theorem goesOn_joined (r r' : Except Fault (Except Failure (List Issue))) :
    goesOn (joined r r') = (goesOn r && goesOn r') := by
  rcases r with fault | failure | issues
  · rfl
  · rfl
  · rcases r' with fault | failure | issues' <;> rfl

theorem joined_nil (r : Except Fault (Except Failure (List Issue))) :
    joined (.ok (.ok [])) r = r := by
  rcases r with fault | failure | issues <;> rfl

theorem joined_assoc (r r' r'' : Except Fault (Except Failure (List Issue))) :
    joined (joined r r') r'' = joined r (joined r' r'') := by
  rcases r with fault | failure | issues
  · rfl
  · rfl
  · rcases r' with fault | failure | issues'
    · rfl
    · rfl
    · rcases r'' with fault | failure | issues''
      · rfl
      · rfl
      · simp [joined, Except.map]

theorem goesOn_stageResult (t : Tool) : goesOn (stageResult w c t) = succeeds w c t := by
  unfold stageResult succeeds
  rcases stageOutcome w c t with fault | issues | output <;> rfl

theorem goesOn_resultOf (ts : List Tool) : goesOn (resultOf w c ts) = ts.all (succeeds w c) := by
  induction ts with
  | nil => rfl
  | cons t ts ih => rw [resultOf, goesOn_joined, goesOn_stageResult, ih, List.all_cons]

theorem resultOf_append (ts us : List Tool) :
    resultOf w c (ts ++ us) = joined (resultOf w c ts) (resultOf w c us) := by
  induction ts with
  | nil => rw [List.nil_append, resultOf, joined_nil]
  | cons t ts ih => rw [List.cons_append, resultOf, resultOf, ih, joined_assoc]

theorem ran_append (ts us : List Tool) :
    ran w c (ts ++ us) = ran w c ts ++ if ts.all (succeeds w c) then ran w c us else [] := by
  induction ts with
  | nil => rfl
  | cons t ts ih =>
    rw [List.cons_append, ran, ran, List.all_cons]
    cases succeeds w c t with
    | true => simp [ih]
    | false => simp

theorem callsOf_append (ts us : List Tool) :
    callsOf w c (ts ++ us) =
      callsOf w c ts ++ if ts.all (succeeds w c) then callsOf w c us else [] := by
  simp only [callsOf, ran_append, List.filterMap_append]
  split <;> rfl

theorem callsOf_cons (t : Tool) (ts : List Tool) :
    callsOf w c (t :: ts) =
      (stageCall c t).toList ++ if succeeds w c t then callsOf w c ts else [] := by
  rw [callsOf, ran, List.filterMap_cons]
  cases succeeds w c t <;> cases stageCall c t <;> rfl

/-- One run after the other, unless the first one ends early. -/
theorem hasEffect_joined {x y : ExceptT Failure Action (List Issue)} {calls calls' : List Call}
    {r r' : Except Fault (Except Failure (List Issue))}
    (hx : HasEffect w d x.run ⟨r, calls, d'⟩)
    (hy : goesOn r = true → HasEffect w d' y.run ⟨r', calls', d''⟩) :
    HasEffect w d (do return (← x) ++ (← y)).run
      ⟨joined r r', calls ++ if goesOn r then calls' else [], if goesOn r then d'' else d'⟩ := by
  rcases r with fault | failure | issues
  · have h := hx.run_bind_error (f := fun found => do return found ++ (← y))
    simpa [goesOn, joined] using h
  · have h := hx.run_bind_early (f := fun found => do return found ++ (← y))
    simpa [goesOn, joined] using h
  · exact hx.run_bind (f := fun found => do return found ++ (← y)) ((hy rfl).run_map)

/-! ### The groups -/

/-- What an action gives for several things, one after the other. -/
def gathered {α β : Type} {m : Type → Type} [Monad m] (f : α → m (List β)) (xs : List α) :
    m (List β) := do
  let found ← xs.mapM f
  return found.flatten

section Gathered

variable {α β : Type} {m : Type → Type} [Monad m] [LawfulMonad m]

theorem gathered_nil (f : α → m (List β)) : gathered f [] = pure [] := by
  simp [gathered]

theorem gathered_cons (f : α → m (List β)) (x : α) (xs : List α) :
    gathered f (x :: xs) = do return (← f x) ++ (← gathered f xs) := by
  simp [gathered]

end Gathered

/-- The stages of tools of one group, seen from its root. -/
theorem hasEffect_stages {g : Tool.Group} {ts : List Tool} (hts : ∀ t ∈ ts, t.group = g) :
    HasEffect w (c.settings.root g)
      (gathered (stageIssues c) ts).run
      ⟨resultOf w c (ts.filter (takesPart w c.settings)),
        callsOf w c (ts.filter (takesPart w c.settings)), c.settings.root g⟩ := by
  induction ts with
  | nil =>
    rw [gathered_nil]
    exact hasEffect_pure _
  | cons t ts ih =>
    have ht : t.group = g := hts t List.mem_cons_self
    have hrest := ih fun u hu => hts u (List.mem_cons_of_mem _ hu)
    rw [gathered_cons]
    cases hpart : takesPart w c.settings t with
    | true =>
      have hstage := hasEffect_stageIssues (c := c) hpart
      rw [ht] at hstage
      have h := hasEffect_joined hstage fun _ => hrest
      rw [List.filter_cons_of_pos hpart, resultOf, callsOf_cons, ← goesOn_stageResult]
      simpa only [ite_self] using h
    | false =>
      have hstage := hasEffect_stageIssues_idle (c := c) hpart
      rw [ht] at hstage
      have h := hasEffect_joined hstage fun _ => hrest
      rw [List.filter_cons_of_neg (by simp [hpart])]
      rw [joined_nil] at h
      exact h

theorem run_groupIssues (tools : List Tool) (g : Tool.Group) :
    (groupIssues c tools g).run = Action.enter (c.settings.root g) >>= fun _ =>
      (gathered (stageIssues c) (tools.filter fun t : Tool => t.group = g)).run :=
  ExceptT.run_bind_lift _ _

theorem hasEffect_groupIssues {tools : List Tool} {g : Tool.Group}
    (hroot : (c.settings.root g).Resolved) (hdir : w.isDirectory (c.settings.root g)) :
    HasEffect w d (groupIssues c tools g).run
      ⟨resultOf w c (activeIn w c.settings tools g), callsOf w c (activeIn w c.settings tools g),
        c.settings.root g⟩ := by
  rw [run_groupIssues]
  refine (hasEffect_enter hroot (Or.inr hdir)).bind (hasEffect_stages ?_)
  intro t ht
  simpa using (List.mem_filter.mp ht).2

theorem stages_eq (tools : List Tool) :
    stages w s tools = activeIn w s tools .php ++ activeIn w s tools .js := by
  simp [stages, groups]

/-- The root of the second group matters only if the first group lets the run go on. -/
theorem hasEffect_allIssues {tools : List Tool} (hroot : ∀ g, (c.settings.root g).Resolved)
    (hphp : w.isDirectory (c.settings.root .php))
    (hjs : (activeIn w c.settings tools .php).all (succeeds w c) = true →
      w.isDirectory (c.settings.root .js)) :
    ∃ d', HasEffect w d (allIssues c tools).run
      ⟨resultOf w c (stages w c.settings tools), callsOf w c (stages w c.settings tools), d'⟩ := by
  have hall : allIssues c tools = gathered (groupIssues c tools) groups := rfl
  rw [hall, groups, gathered_cons, gathered_cons, gathered_nil, stages_eq, resultOf_append,
    callsOf_append, ← goesOn_resultOf]
  rw [← goesOn_resultOf] at hjs
  have hsecond (hgoes : goesOn (resultOf w c (activeIn w c.settings tools .php)) = true) :
      HasEffect w (c.settings.root .php)
        (do return (← groupIssues c tools .js) ++ (← pure [])).run
        ⟨resultOf w c (activeIn w c.settings tools .js),
          callsOf w c (activeIn w c.settings tools .js), c.settings.root .js⟩ := by
    have hgroup : HasEffect w (c.settings.root .php) (groupIssues c tools .js).run _ :=
      hasEffect_groupIssues (hroot .js) (hjs hgoes)
    simpa using hgroup
  exact ⟨_, hasEffect_joined (hasEffect_groupIssues (hroot .php) hphp) hsecond⟩

/-! ### The interpreter -/

/-- Can a word start an interpreter that says its version? -/
def answers (w : Workspace) (s : Settings) (word : Text) : Bool :=
  match Command.resultIn w [word, "--version"] s.limit with
  | .ok r => r.exitCode = 0
  | .error _ => false

/-- The words that are tried, up to the first one that answers. -/
def tried (w : Workspace) (s : Settings) : List Text → List Text
  | [] => []
  | word :: words => word :: if answers w s word then [] else tried w s words

/-- The words that are tried in a run: none if no tool takes part that needs an interpreter. -/
def probed (w : Workspace) (s : Settings) (tools : List Tool) : List Text :=
  if activeIn w s tools .js = [] then [] else tried w s s.interpreters

/-- The question to an interpreter. -/
def probeCall (s : Settings) (d : Path) (word : Text) : Call :=
  ⟨[word, "--version"], d.toText, s.limit⟩

def interpreterIn (w : Workspace) (s : Settings) (tools : List Tool) : Option Text :=
  (probed w s tools).find? (answers w s)

theorem hasEffect_firstRunning (words : List Text) :
    HasEffect w d (Interpreter.firstRunning s.limit words)
      ⟨.ok ((tried w s words).find? (answers w s)), (tried w s words).map (probeCall s d), d⟩ := by
  induction words with
  | nil => exact hasEffect_pure none
  | cons word words ih =>
    rw [Interpreter.firstRunning, tried]
    have hexecute := Action.hasEffect_execute (w := w) (d := d) [word, "--version"] s.limit none
    have hanswers : answers w s word = match Command.resultIn w [word, "--version"] s.limit with
      | .ok r => decide (r.exitCode = 0)
      | .error _ => false := rfl
    cases hr : Command.resultIn w [word, "--version"] s.limit with
    | error fault => cases hr
    | ok r =>
      rw [hr] at hexecute hanswers
      by_cases hzero : r.exitCode = 0
      · have hyes : answers w s word = true := by simpa [hzero] using hanswers
        rw [if_pos hyes, List.find?_cons_of_pos hyes]
        refine hexecute.bind ?_
        rw [if_pos hzero]
        exact hasEffect_pure _
      · have hno : ¬ answers w s word = true := by simpa [hzero] using hanswers
        rw [if_neg hno, List.find?_cons_of_neg hno]
        refine hexecute.bind ?_
        rw [if_neg hzero]
        exact ih

/-- Whether a script is there is seen from anywhere, for the root of the scripts is absolute. -/
theorem isAvailable_js {t : Tool} (hroot : (s.root .js).Resolved) (ht : t.group = .js) :
    t.isAvailable w d s = t.isAvailable w (s.root t.group) s := by
  have hplace : (Path.ofText t.place).root = .relative := by cases t <;> rfl
  have hmodules : (Path.ofText "node_modules").root = .relative := rfl
  have hbinary : (t.binary s).root ≠ .relative := by
    simp only [Tool.binary, ht, Path.below]
    rw [Path.append_of_relative hplace, Path.append_of_relative hmodules]
    exact hroot.absolute
  rw [Tool.isAvailable, Path.resolve_of_absolute hbinary d (s.root t.group), Tool.isAvailable]

theorem hasEffect_interpreterFor {tools : List Tool} (hroot : (s.root .js).Resolved) :
    HasEffect w d (interpreterFor s tools)
      ⟨.ok (interpreterIn w s tools), (probed w s tools).map (probeCall s d), d⟩ := by
  have hany := hasEffect_anyM (w := w) (d := d) (p := isActive s) (b := takesPart w s)
    (tools.filter fun t : Tool => t.group = .js) fun t ht => by
      have hgroup : t.group = .js := by simpa using (List.mem_filter.mp ht).2
      rw [takesPart, ← isAvailable_js hroot hgroup]
      exact hasEffect_isActive s t
  have hnone : activeIn w s tools .js = [] ↔
      (tools.filter fun t : Tool => t.group = .js).any (takesPart w s) = false := by
    rw [activeIn, List.filter_eq_nil_iff, List.any_eq_false]
  unfold interpreterFor interpreterIn probed
  by_cases hactive : activeIn w s tools .js = []
  · rw [hnone.mp hactive] at hany
    rw [if_pos hactive]
    exact hany.bind (hasEffect_pure none)
  · have hsome := (Bool.not_eq_false _).mp fun h => hactive (hnone.mpr h)
    rw [hsome] at hany
    rw [if_neg hactive]
    refine hany.bind ((hasEffect_firstRunning s.interpreters).bind_silent ?_)
    apply HasEffect.say_bind
    exact hasEffect_pure _

/-! ### The run -/

/-- What all stages of a run have in common. -/
def contextOf (w : Workspace) (d : Path) (s : Settings) (tools : List Tool)
    (workingDir : Option Path) : Context :=
  ⟨s, interpreterIn w s tools, workingDir.getD d⟩

/-- A run has the effect that its stages have, after the questions to the interpreters. -/
theorem hasEffect_run_stages {tools : List Tool} {workingDir : Option Path} (hd : d.Resolved)
    (hdir : w.isDirectory d) (hroot : ∀ g, (s.root g).Resolved)
    (hphp : w.isDirectory (s.root .php))
    (hjs : (activeIn w s tools .php).all (succeeds w (contextOf w d s tools workingDir)) = true →
      w.isDirectory (s.root .js)) :
    HasEffect w d (run s tools workingDir)
      ⟨resultOf w (contextOf w d s tools workingDir) (stages w s tools),
        (probed w s tools).map (probeCall s d) ++
          callsOf w (contextOf w d s tools workingDir) (stages w s tools), d⟩ := by
  obtain ⟨d', hall⟩ := hasEffect_allIssues (d := d) (c := contextOf w d s tools workingDir)
    hroot hphp hjs
  have hback := hall.returning hd hdir
  apply hasEffect_get_bind
  rintro σ - rfl
  refine (hasEffect_interpreterFor (hroot .js)).bind ?_
  change HasEffect w σ.directory (Action.returning
    (allIssues (contextOf w σ.directory s tools workingDir) tools).run >>= _) _
  change HasEffect w σ.directory (Action.returning _)
    ⟨resultOf w (contextOf w σ.directory s tools workingDir) (stages w s tools), _, _⟩ at hback
  rcases hr : resultOf w (contextOf w σ.directory s tools workingDir) (stages w s tools) with
    fault | failure | issues
  · rw [hr] at hback
    exact hback.bind_error
  · rw [hr] at hback
    exact hback.bind_silent (hasEffect_pure _)
  · rw [hr] at hback
    refine hback.bind_silent ?_
    apply HasEffect.say_bind
    exact hasEffect_pure _

end LintReport.Pipeline
