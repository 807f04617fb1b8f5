import LintReport.Proofs.Session.Kept

/-!
Two sessions side by side. Sessions in two workspaces are alike if they are in the same directory
and have run the same commands; what was said in them does not count. Two actions agree if from any
two such sessions they come to the same fault or to related values, and to two such sessions.
Actions with parts that agree do so themselves, whatever the parts have said.
-/
namespace LintReport

/-- Two sessions in the same directory and with the same commands. -/
structure Session.Alike (w w' : Workspace) (σ σ' : Session) : Prop where
  left : σ.workspace = w
  right : σ'.workspace = w'
  directory : σ'.directory = σ.directory
  calls : σ'.calls = σ.calls

/-- Two workspaces with files and directories at the same places. -/
structure Workspace.SamePlaces (w w' : Workspace) : Prop where
  isFile_eq : ∀ p, w.isFile p = w'.isFile p
  isDirectory_eq : ∀ p, w.isDirectory p = w'.isDirectory p

namespace Action

variable {α β γ δ ε : Type} {w w' : Workspace} {d d' : Path} {σ σ' : Session}
  {R : α → β → Prop} {S : γ → δ → Prop} {a : Action α} {b : Action β}

/-- The same fault, or related values. -/
inductive SameEnd (R : α → β → Prop) : Except Fault α → Except Fault β → Prop where
  | ok {x : α} {y : β} (h : R x y) : SameEnd R (.ok x) (.ok y)
  | error (fault : Fault) : SameEnd R (.error fault) (.error fault)

theorem SameEnd.of_eq {r r' : Except Fault α} (h : r = r') : SameEnd Eq r r' := by
  subst h
  cases r with
  | ok x => exact .ok rfl
  | error fault => exact .error fault

theorem SameEnd.eq {r r' : Except Fault α} (h : SameEnd Eq r r') : r = r' := by
  cases h with
  | ok h => rw [h]
  | error fault => rfl

/-- From two sessions, two actions come to the same end. -/
structure RunAlike (w w' : Workspace) (R : α → β → Prop) (a : Action α) (b : Action β)
    (σ σ' : Session) : Prop where
  given : SameEnd R (a.given σ) (b.given σ')
  after : Session.Alike w w' (a.after σ) (b.after σ')

/-- From any two sessions that are alike, two actions come to the same end. -/
def Agree (w w' : Workspace) (R : α → β → Prop) (a : Action α) (b : Action β) : Prop :=
  ∀ ⦃σ σ' : Session⦄, Session.Alike w w' σ σ' → RunAlike w w' R a b σ σ'

/-! ### Parts -/

theorem HasEffect.after_eq {r : Except Fault α} {calls : List Call}
    (h : HasEffect σ.workspace σ.directory a ⟨r, calls, d⟩) :
    (a.after σ).workspace = σ.workspace ∧ (a.after σ).directory = d ∧
      (a.after σ).calls = σ.calls ++ calls := by
  obtain ⟨records, shown, hrun⟩ := h.run_eq
  rw [Action.after, hrun]
  cases r <;> exact ⟨rfl, rfl, rfl⟩

/-- Actions come to the same end if their effects are the same. -/
theorem RunAlike.of_hasEffect {r : Except Fault α} {r' : Except Fault β} {calls : List Call}
    (hσ : Session.Alike w w' σ σ') (ha : HasEffect w σ.directory a ⟨r, calls, d⟩)
    (hb : HasEffect w' σ.directory b ⟨r', calls, d⟩) (h : SameEnd R r r') :
    RunAlike w w' R a b σ σ' := by
  obtain ⟨rfl, rfl, hdirectory, hcalls⟩ := hσ
  rw [← hdirectory] at hb
  obtain ⟨haw, had, hac⟩ := ha.after_eq
  obtain ⟨hbw, hbd, hbc⟩ := hb.after_eq
  constructor
  · rw [ha.given_eq, hb.given_eq]
    exact h
  · exact ⟨haw, hbw, by rw [hbd, had], by rw [hbc, hac, hcalls]⟩

theorem agree_pure {x : α} {y : β} (h : R x y) : Agree w w' R (pure x) (pure y) :=
  fun _ _ hσ => .of_hasEffect hσ (hasEffect_pure x) (hasEffect_pure y) (.ok h)

theorem agree_ofExcept {r : Except Fault α} {r' : Except Fault β} (h : SameEnd R r r') :
    Agree w w' R (ofExcept r) (ofExcept r') :=
  fun _ _ hσ => .of_hasEffect hσ (hasEffect_ofExcept r) (hasEffect_ofExcept r') h

/-- It does not count what is said. -/
theorem agree_say (r r' : Record) : Agree w w' Eq (say r) (say r') :=
  fun _ _ hσ => .of_hasEffect hσ (hasEffect_say r) (hasEffect_say r') (.ok rfl)

theorem agree_execute {command : List Text} {limit : Option Seconds} (directory : Option Path)
    (h : Command.resultIn w command limit = Command.resultIn w' command limit) :
    Agree w w' (fun r r' => r' = r ∧ Command.resultIn w command limit = .ok r)
      (execute command limit directory) (execute command limit directory) := by
  intro σ σ' hσ
  refine .of_hasEffect hσ (hasEffect_execute _ _ _) (hasEffect_execute _ _ _) ?_
  rw [← h]
  cases Command.resultIn w command limit with
  | ok r => exact .ok ⟨rfl, rfl⟩
  | error fault => exact .error fault

/-! ### One after the other -/

theorem RunAlike.bind {f : α → Action γ} {g : β → Action δ} (h : RunAlike w w' R a b σ σ')
    (hnext : ∀ x y, R x y → RunAlike w w' S (f x) (g y) (a.after σ) (b.after σ')) :
    RunAlike w w' S (a >>= f) (b >>= g) σ σ' := by
  obtain ⟨hgiven, hafter⟩ := h
  have hends : SameEnd S (a.given σ >>= fun x => (f x).given (a.after σ))
      (b.given σ' >>= fun y => (g y).given (b.after σ')) := by
    generalize a.given σ = r, b.given σ' = r' at hgiven ⊢
    cases hgiven with
    | ok hxy => exact (hnext _ _ hxy).given
    | error fault => exact .error fault
  refine ⟨by rwa [given_bind, given_bind], ?_⟩
  rw [after_bind, after_bind]
  generalize a.given σ = r, b.given σ' = r' at hgiven ⊢
  cases hgiven with
  | ok hxy => exact (hnext _ _ hxy).after
  | error fault => exact hafter

theorem Agree.bind {f : α → Action γ} {g : β → Action δ} (h : Agree w w' R a b)
    (hnext : ∀ x y, R x y → Agree w w' S (f x) (g y)) : Agree w w' S (a >>= f) (b >>= g) :=
  fun _ _ hσ => (h hσ).bind fun x y hxy => hnext x y hxy (h hσ).after

/-- An action that goes on with what it has got. -/
theorem Agree.bind_eq {a b : Action α} {f g : α → Action γ} {S : γ → γ → Prop}
    (h : Agree w w' Eq a b) (hnext : ∀ x, Agree w w' S (f x) (g x)) :
    Agree w w' S (a >>= f) (b >>= g) :=
  h.bind fun x _ hxy => hxy ▸ hnext x

/-- An action that looks at the session first. -/
theorem agree_get_bind {f g : Session → Action γ} {S : γ → γ → Prop}
    (h : ∀ σ σ', Session.Alike w w' σ σ' → RunAlike w w' S (f σ) (g σ') σ σ') :
    Agree w w' S (get >>= f) (get >>= g) := fun σ σ' hσ => ⟨(h σ σ' hσ).given, (h σ σ' hσ).after⟩

section Early

/-- Actions that may end early agree if they do so one after the other. -/
theorem Agree.run_bind {x y : ExceptT ε Action α} {f g : α → ExceptT ε Action β}
    (h : Agree w w' Eq x.run y.run) (hnext : ∀ a, Agree w w' Eq (f a).run (g a).run) :
    Agree w w' Eq (x >>= f).run (y >>= g).run := by
  rw [ExceptT.run_bind, ExceptT.run_bind]
  refine h.bind_eq fun r => ?_
  cases r with
  | ok a => exact hnext a
  | error e => exact agree_pure rfl

theorem agree_run_mapM {f g : α → ExceptT ε Action β} (xs : List α)
    (h : ∀ x, Agree w w' Eq (f x).run (g x).run) :
    Agree w w' Eq (xs.mapM f).run (xs.mapM g).run := by
  induction xs with
  | nil => exact agree_pure rfl
  | cons x xs ih =>
    rw [List.mapM_cons, List.mapM_cons]
    exact (h x).run_bind fun y => ih.run_bind fun ys => agree_pure rfl

end Early

/-! ### Directories -/

theorem agree_changeDirectory (h : w.SamePlaces w') (path : Text) :
    Agree w w' Eq (changeDirectory path) (changeDirectory path) := by
  intro σ σ' hσ
  have ha := hasEffect_changeDirectory_path (w := w) (d := σ.directory) path _ rfl
  have hb := hasEffect_changeDirectory_path (w := w') (d := σ.directory) path _ rfl
  rw [← h.isDirectory_eq, ← h.isFile_eq] at hb
  split at ha
  · next hdir =>
    rw [if_pos hdir] at hb
    exact .of_hasEffect hσ ha hb (.ok rfl)
  · next hdir =>
    rw [if_neg hdir] at hb
    exact .of_hasEffect hσ ha hb (.error _)

theorem agree_enter (h : w.SamePlaces w') (p : Path) : Agree w w' Eq (enter p) (enter p) := by
  refine agree_get_bind fun σ σ' hσ => ?_
  rw [hσ.directory]
  split
  · exact agree_changeDirectory h p.toText hσ
  · exact agree_pure rfl hσ

/-- Two actions that agree do so when the sessions are taken back to where they were. -/
theorem agree_returning {a b : Action α} (hplaces : w.SamePlaces w') (h : Agree w w' Eq a b) :
    Agree w w' Eq (returning a) (returning b) := by
  intro σ σ' hσ
  have hback := ((agree_enter hplaces σ.directory).bind_eq fun _ =>
    agree_ofExcept (h hσ).given) (h hσ).after
  constructor
  · rw [Action.given, Action.given, run_returning, run_returning, hσ.directory]
    exact hback.given
  · rw [Action.after, Action.after, run_returning, run_returning, hσ.directory]
    exact hback.after

end Action

end LintReport
