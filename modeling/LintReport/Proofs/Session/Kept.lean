import LintReport.Proofs.Settings.Roots

/-!
What holds across actions. An action keeps a view of the session if the session that it leaves
behind looks the same, whether the action gives a result or ends in a fault. More generally, a
relation between sessions that can be chained holds across an action if it holds across all parts of
the action. On the way back into a directory that exists nothing gets lost.
-/
namespace LintReport

/-- Where a session is and what it finds around it. -/
def Session.place (σ : Session) : Workspace × Path := (σ.workspace, σ.directory)

namespace Action

variable {α β γ : Type}

theorem after_bind (a : Action α) (f : α → Action β) (σ : Session) :
    (a >>= f).after σ = match a.given σ with
      | .ok x => (f x).after (a.after σ)
      | .error _ => a.after σ := by
  rw [after, EStateM.run_bind, given, after]
  cases a.run σ <;> rfl

theorem given_bind (a : Action α) (f : α → Action β) (σ : Session) :
    (a >>= f).given σ = a.given σ >>= fun x => (f x).given (a.after σ) := by
  rw [given, EStateM.run_bind, given, after]
  cases a.run σ <;> rfl

theorem after_get_bind (f : Session → Action α) (σ : Session) :
    (get >>= f).after σ = (f σ).after σ := rfl

theorem given_get_bind (f : Session → Action α) (σ : Session) :
    (get >>= f).given σ = (f σ).given σ := rfl

/-- However an action ends, a relation holds between the session that it found and the one that it
leaves behind. -/
def Holds (R : Session → Session → Prop) (a : Action α) : Prop := ∀ σ, R σ (a.after σ)

theorem Holds.of_run {R : Session → Session → Prop} {a : Action α} {σ τ : Session} {x : α}
    (h : Holds R a) (hrun : a.run σ = .ok x τ) : R σ τ := by
  have hafter : a.after σ = τ := by rw [after, hrun]
  exact hafter ▸ h σ

theorem holds_get_bind {R : Session → Session → Prop} {f : Session → Action α}
    (h : ∀ σ, Holds R (f σ)) : Holds R (get >>= f) := fun σ => h σ σ

/-- However an action ends, the session looks as it did before. -/
def Keeps (view : Session → γ) (a : Action α) : Prop := ∀ σ, view (a.after σ) = view σ

end Action

/-- A relation that holds across actions one after the other if it holds across each of them. -/
structure Session.Lasting (R : Session → Session → Prop) : Prop where
  refl : ∀ σ, R σ σ
  trans : ∀ {σ τ ρ}, R σ τ → R τ ρ → R σ ρ

/-- A lasting relation that holds across what is said without an error and across every command. -/
structure Session.Durable (R : Session → Session → Prop) : Prop extends Session.Lasting R where
  holds_say : ∀ r : Record, r.error = none → Action.Holds R (Action.say r)
  holds_execute : ∀ command limit directory,
    Action.Holds R (Action.execute command limit directory)

theorem Session.lasting_view {γ : Type} (view : Session → γ) :
    Session.Lasting fun σ τ => view τ = view σ := ⟨fun _ => rfl, fun h h' => h'.trans h⟩

namespace Session.Lasting

open LintReport.Action

variable {α β ε : Type} {R : Session → Session → Prop} (hR : Session.Lasting R)

include hR

theorem holds_pure (x : α) : Holds R (pure x : Action α) := fun σ => hR.refl σ

theorem holds_throw (fault : Fault) : Holds R (throw fault : Action α) := fun σ => hR.refl σ

theorem holds_ofExcept (x : Except Fault α) : Holds R (Action.ofExcept x) := by
  cases x with
  | ok x => exact hR.holds_pure x
  | error fault => exact hR.holds_throw fault

theorem holds_bind {a : Action α} {f : α → Action β} (ha : Holds R a) (hf : ∀ x, Holds R (f x)) :
    Holds R (a >>= f) := by
  intro σ
  rw [after_bind]
  cases a.given σ with
  | ok x => exact hR.trans (ha σ) (hf x _)
  | error fault => exact ha σ

theorem holds_anyM {p : α → Action Bool} (h : ∀ x, Holds R (p x)) (xs : List α) :
    Holds R (xs.anyM p) := by
  induction xs with
  | nil => exact hR.holds_pure false
  | cons x xs ih =>
    rw [List.anyM_cons]
    refine hR.holds_bind (h x) fun b => ?_
    cases b with
    | true => exact hR.holds_pure true
    | false => exact ih

theorem holds_mapM {f : α → Action β} (h : ∀ x, Holds R (f x)) (xs : List α) :
    Holds R (xs.mapM f) := by
  induction xs with
  | nil => exact hR.holds_pure []
  | cons x xs ih =>
    rw [List.mapM_cons]
    exact hR.holds_bind (h x) fun y => hR.holds_bind ih fun ys => hR.holds_pure _

theorem holds_forM {f : α → Action PUnit} (h : ∀ x, Holds R (f x)) (xs : List α) :
    Holds R (xs.forM f) := by
  induction xs with
  | nil => exact hR.holds_pure _
  | cons x xs ih => exact hR.holds_bind (h x) fun _ => ih

theorem holds_run_bind {x : ExceptT ε Action α} {f : α → ExceptT ε Action β} (hx : Holds R x.run)
    (hf : ∀ a, Holds R (f a).run) : Holds R (x >>= f).run := by
  rw [ExceptT.run_bind]
  refine hR.holds_bind hx fun r => ?_
  cases r with
  | ok a => exact hf a
  | error e => exact hR.holds_pure _

theorem holds_run_mapM {f : α → ExceptT ε Action β} (h : ∀ x, Holds R (f x).run) (xs : List α) :
    Holds R (xs.mapM f).run := by
  induction xs with
  | nil => exact hR.holds_pure _
  | cons x xs ih =>
    rw [List.mapM_cons]
    exact hR.holds_run_bind (h x) fun y => hR.holds_run_bind ih fun ys => hR.holds_pure _

theorem holds_enter (hchange : ∀ path, Holds R (changeDirectory path)) (p : Path) :
    Holds R (enter p) := by
  refine holds_get_bind fun σ => ?_
  split
  · exact hchange p.toText
  · exact hR.holds_pure ()

end Session.Lasting

namespace Action

variable {α β γ : Type} {view : Session → γ}

theorem Keeps.workspace {a : Action α} (h : Keeps Session.place a) :
    Keeps Session.workspace a := fun σ => congrArg Prod.fst (h σ)

theorem HasEffect.given_eq {a : Action α} {e : Effect α} {σ : Session}
    (h : HasEffect σ.workspace σ.directory a e) : a.given σ = e.result := by
  obtain ⟨records, shown, hrun⟩ := h.run_eq
  rw [given, hrun, Effect.ending]
  cases e.result <;> rfl

/-- An action whose effect leaves the session where it was. -/
theorem keeps_of_hasEffect {a : Action α}
    (h : ∀ w d, ∃ r calls, HasEffect w d a ⟨r, calls, d⟩) : Keeps Session.place a := by
  intro σ
  obtain ⟨r, calls, heffect⟩ := h σ.workspace σ.directory
  obtain ⟨records, shown, hrun⟩ := heffect.run_eq
  rw [after, hrun]
  cases r <;> rfl

theorem after_changeDirectory (path : Text) (σ : Session) :
    ∃ directory, (changeDirectory path).after σ = { σ with directory } := by
  by_cases hdir : σ.workspace.isDirectory (Path.resolve σ.directory (.ofText path)) = true
  · exact ⟨Path.resolve σ.directory (.ofText path), by simp [changeDirectory, after, hdir]⟩
  · exact ⟨σ.directory, by simp [changeDirectory, after, hdir]⟩

theorem keeps_changeDirectory (path : Text) :
    Keeps Session.workspace (changeDirectory path) := by
  intro σ
  obtain ⟨directory, hafter⟩ := after_changeDirectory path σ
  rw [hafter]

/-! ### The way back -/

/-- The way back comes last, and then what the action gave. -/
theorem run_returning (a : Action α) (σ : Session) :
    (returning a).run σ =
      (enter σ.directory >>= fun _ => ofExcept (a.given σ)).run (a.after σ) := by
  change ((_ : Action (Except Fault α)) >>= fun result =>
    enter σ.directory >>= fun _ => ofExcept result).run σ = _
  rw [EStateM.run_bind, run_caught]

/-- What holds across an action and across every change of the directory holds across the action and
the way back. -/
theorem holds_returning {R : Session → Session → Prop} (hR : Session.Lasting R)
    (hchange : ∀ path, Holds R (changeDirectory path)) {a : Action α} (h : Holds R a) :
    Holds R (returning a) := by
  intro σ
  have hback : Holds R (enter σ.directory >>= fun _ => ofExcept (a.given σ)) :=
    hR.holds_bind (hR.holds_enter hchange _) fun _ => hR.holds_ofExcept _
  rw [after, run_returning]
  exact hR.trans (h σ) (hback _)

/-- Whatever an action does with the directory, the session is back afterwards in the one where it
was, and the way back neither hides nor makes a fault. -/
theorem returning_spec {a : Action α} {σ : Session} (hσ : σ.Placed)
    (ha : (a.after σ).workspace = σ.workspace) :
    ((returning a).after σ).directory = σ.directory ∧
      ((returning a).after σ).workspace = σ.workspace ∧
      (returning a).given σ = a.given σ := by
  have hrun := run_returning a σ
  have hdirectory : (a.after σ).workspace.isDirectory σ.directory := ha ▸ hσ.exists_directory
  have hback : HasEffect (a.after σ).workspace (a.after σ).directory
      (enter σ.directory >>= fun _ => ofExcept (a.given σ)) ⟨a.given σ, [], σ.directory⟩ :=
    (hasEffect_enter hσ.resolved (Or.inr hdirectory)).bind (hasEffect_ofExcept _)
  obtain ⟨records, shown, hending⟩ := hback.run_eq
  rw [hending] at hrun
  rw [after, given, hrun, Effect.ending]
  cases a.given σ with
  | ok x => exact ⟨rfl, ha, rfl⟩
  | error fault => exact ⟨rfl, ha, rfl⟩

end Action

end LintReport
