import LintReport.CommandLine.Options
import LintReport.Proofs.Settings.Diagnosed

/-!
The verbosity on a command line. It is an option like others, so what the words ask for is the same
but for the verbosity, whichever verbosity is asked for among them or has been asked for before.
-/
namespace LintReport.CommandLine

variable {o o' : Options}

/-- The options but for the verbosity. -/
def Options.undiagnosed (o : Options) : Options := { o with verbosity := none }

/-- What is asked for, but for the verbosity. -/
def Request.undiagnosed : Request → Request
  | .run o => .run o.undiagnosed
  | r => r

/-- Requests that are the same but for the verbosity ask for runs, or they are the same. -/
theorem Request.undiagnosed_cases {r r' : Request} (h : r.undiagnosed = r'.undiagnosed) :
    (∃ o o', r = .run o ∧ r' = .run o' ∧ o.undiagnosed = o'.undiagnosed) ∨
      r' = r ∧ ∀ o, r ≠ .run o := by
  cases r with
  | run o =>
    cases r' with
    | run o' => exact .inl ⟨o, o', rfl, rfl, Request.run.inj h⟩
    | _ => cases h
  | _ =>
    cases r' <;> cases h
    all_goals exact .inr ⟨rfl, nofun⟩

/-! ### Words -/

theorem Options.withFlag_undiagnosed (h : o.undiagnosed = o'.undiagnosed) (f : Flag) :
    (o.withFlag f).undiagnosed = (o'.withFlag f).undiagnosed := by
  obtain ⟨strict, verbosity, phpRoot, jsRoot, binDir⟩ := o
  obtain ⟨strict', verbosity', phpRoot', jsRoot', binDir'⟩ := o'
  cases h
  cases f <;> rfl

theorem Options.withArgument_undiagnosed (h : o.undiagnosed = o'.undiagnosed) (f : Flag)
    (argument : Text) :
    (o.withArgument f argument).undiagnosed = (o'.withArgument f argument).undiagnosed := by
  obtain ⟨strict, verbosity, phpRoot, jsRoot, binDir⟩ := o
  obtain ⟨strict', verbosity', phpRoot', jsRoot', binDir'⟩ := o'
  cases h
  cases f <;> rfl

theorem applyFlags_undiagnosed (h : o.undiagnosed = o'.undiagnosed) (flags : List Flag) :
    (applyFlags o flags).map Options.undiagnosed =
      (applyFlags o' flags).map Options.undiagnosed := by
  induction flags generalizing o o' with
  | nil => exact congrArg Except.ok h
  | cons f flags ih =>
    cases f with
    | help => rfl
    | version => rfl
    | _ => exact ih (Options.withFlag_undiagnosed h _)

theorem interpret_flag {f : Flag} {spelling : Text} {attached : Option Text} {flags : List Flag}
    (hf : ¬ f.takesArgument = true) (hflags : flagsIn f spelling attached = .ok flags)
    (o : Options) (stray : List Text) (words : List Word) :
    interpret o stray (.flag f spelling attached :: words) =
      match applyFlags o flags with
      | .error request => request
      | .ok o => interpret o stray words := by
  cases happly : applyFlags o flags <;>
    rw [interpret.eq_def] <;> simp only [if_neg hf, hflags, happly]

/-- Words take the same effect, but for the verbosity, on options that are the same but for that. -/
theorem interpret_undiagnosed (h : o.undiagnosed = o'.undiagnosed) (stray : List Text)
    (words : List Word) :
    (interpret o stray words).undiagnosed = (interpret o' stray words).undiagnosed := by
  fun_induction interpret o stray words generalizing o' with
  | case1 o => exact congrArg Request.run h
  | case2 o stray hstray => rw [interpret, if_neg hstray]
  | case3 o stray word words ih => exact ih h
  | case4 o stray words ih => exact ih h
  | case5 o stray word words ih => exact ih h
  | case6 o stray f spelling hf argument words ih =>
    rw [interpret, if_pos hf]
    exact ih (Options.withArgument_undiagnosed h f argument)
  | case7 o stray f spelling hf argument words ih =>
    rw [interpret, if_pos hf]
    exact ih (Options.withArgument_undiagnosed h f argument)
  | case8 o stray f spelling words hf hwords =>
    rw [interpret, if_pos hf]
    exact hwords
  | case9 o stray f spelling attached words hf e hflags =>
    rw [interpret.eq_def]
    simp only [if_neg hf, hflags]
  | case10 o stray f spelling attached words hf flags hflags request happly =>
    have hends := applyFlags_undiagnosed h flags
    rw [interpret_flag hf hflags]
    cases hright : applyFlags o' flags with
    | error request' =>
      rw [happly, hright] at hends
      rw [Except.error.inj hends]
    | ok applied' =>
      rw [happly, hright] at hends
      cases hends
  | case11 o stray f spelling attached words hf flags hflags applied happly ih =>
    have hends := applyFlags_undiagnosed h flags
    rw [interpret_flag hf hflags]
    cases hright : applyFlags o' flags with
    | error request' =>
      rw [happly, hright] at hends
      cases hends
    | ok applied' =>
      rw [happly, hright] at hends
      exact ih (Except.ok.inj hends)

/-- A flag for the verbosity in front of a command line asks for nothing else. -/
theorem request_verbosity {spelling : Text} {level : Nat}
    (h : Flag.ofSpelling? spelling = some (.verbosity level)) (arguments : List Text) :
    (request (spelling :: arguments)).undiagnosed = (request arguments).undiagnosed := by
  have hmem := Table.mem_of_get? h
  have hdash : ∀ entry ∈ Flag.spellings, entry.1.head? = some Word.dash ∧
      entry.1 ≠ [Word.dash, Word.dash] := by decide
  obtain ⟨hhead, hnot⟩ := hdash _ hmem
  have hclass : Word.classify spelling = .ok (.flag (.verbosity level) spelling none) := by
    rw [Word.classify, if_neg (not_not.mpr hhead), h]
  rw [request, request, Word.classifyAll, if_neg hnot, hclass]
  cases Word.classifyAll arguments with
  | error e => rfl
  | ok words =>
    change (interpret {} [] (.flag (.verbosity level) spelling none :: words)).undiagnosed = _
    rw [interpret_flag (f := .verbosity level) Bool.false_ne_true rfl]
    exact @interpret_undiagnosed { verbosity := some level } {} rfl [] words

/-! ### Settings -/

/-- Options that are the same but for the verbosity give overrides that are. -/
theorem overrides_undiagnosed (h : o.undiagnosed = o'.undiagnosed) :
    List.Forall₂ (fun m m' => m.1 = m'.1 ∧ (m.1 ∉ Settings.diagnosticNames → m.2 = m'.2))
      o.overrides o'.overrides := by
  obtain ⟨strict, verbosity, phpRoot, jsRoot, binDir⟩ := o
  obtain ⟨strict', verbosity', phpRoot', jsRoot', binDir'⟩ := o'
  cases h
  have hverbosity : Text.ofString "verbosity" ∈ Settings.diagnosticNames := by decide
  exact .cons ⟨rfl, fun _ => rfl⟩ (.cons ⟨rfl, fun hnot => absurd hverbosity hnot⟩
    (.cons ⟨rfl, fun _ => rfl⟩ .nil))

end LintReport.CommandLine
