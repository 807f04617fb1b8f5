import LintReport.Session.Command
import LintReport.Proofs.Path.Resolved

/-!
Effects of actions. Most actions look at nothing of a session but its workspace and its directory,
and change nothing but what was said, which commands ran, and where the session is. The effect of
such an action is data, and the effects of its parts make up its own.
-/
namespace LintReport.Action

variable {α β : Type}

/-- The session that an action leaves behind. -/
def after (a : Action α) (σ : Session) : Session :=
  match a.run σ with
  | .ok _ τ => τ
  | .error _ τ => τ

/-- What an action gives in a session. -/
def given (a : Action α) (σ : Session) : Except Fault α :=
  match a.run σ with
  | .ok x _ => .ok x
  | .error fault _ => .error fault

/-- An action that catches its own fault ends well with what it would have given. -/
theorem run_caught (a : Action α) (σ : Session) :
    (try let x ← a; pure (Except.ok x) catch fault => pure (Except.error fault) :
      Action (Except Fault α)).run σ = .ok (a.given σ) (a.after σ) := by
  change EStateM.tryCatch (a >>= fun x => pure (Except.ok x))
    (fun fault => pure (Except.error fault)) σ = _
  have hbind := EStateM.run_bind (s := σ) a fun x => pure (Except.ok (ε := Fault) x)
  change (a >>= fun x => pure (Except.ok x)) σ = _ at hbind
  delta EStateM.tryCatch
  dsimp only
  rw [hbind, given, after]
  cases a.run σ with
  | ok x τ => rfl
  | error fault τ => rfl

/-- What an action gives, the commands that it runs, and where it leaves the session. -/
structure Effect (α : Type) where
  result : Except Fault α
  calls : List Call
  directory : Path

/-- The end of an action with an effect in a session that has already said what it says. -/
def Effect.ending (e : Effect α) (σ : Session) : EStateM.Result Fault Session α :=
  let σ' := { σ with directory := e.directory, calls := σ.calls ++ e.calls }
  match e.result with
  | .ok a => .ok a σ'
  | .error fault => .error fault σ'

/-- In every session with a workspace and a directory, the action has the effect, and all else that
it does is to say things. -/
def HasEffect (w : Workspace) (d : Path) (a : Action α) (e : Effect α) : Prop :=
  ∀ σ : Session, σ.workspace = w → σ.directory = d →
    ∃ records shown, a.run σ = e.ending { σ with records, shown }

variable {w : Workspace} {d d' d'' : Path} {calls calls' : List Call}

theorem HasEffect.run_eq {a : Action α} {e : Effect α} {σ : Session}
    (h : HasEffect σ.workspace σ.directory a e) :
    ∃ records shown, a.run σ = e.ending { σ with records, shown } := h σ rfl rfl

/-- Where an action ends well, it has given the result of its effect. -/
theorem HasEffect.of_run {a : Action α} {e : Effect α} {σ σ' : Session} {x : α}
    (h : HasEffect σ.workspace σ.directory a e) (hrun : a.run σ = .ok x σ') :
    e.result = .ok x ∧ σ'.calls = σ.calls ++ e.calls ∧ σ'.directory = e.directory ∧
      σ'.workspace = σ.workspace := by
  obtain ⟨records, shown, hending⟩ := h.run_eq
  rw [hrun, Effect.ending] at hending
  cases hresult : e.result with
  | error fault =>
    rw [hresult] at hending
    cases hending
  | ok y =>
    rw [hresult] at hending
    injection hending with hx hσ'
    subst hx hσ'
    exact ⟨rfl, rfl, rfl, rfl⟩

/-- Where an action ends in a fault, its effect has that fault. -/
theorem HasEffect.of_run_error {a : Action α} {e : Effect α} {σ σ' : Session} {fault : Fault}
    (h : HasEffect σ.workspace σ.directory a e) (hrun : a.run σ = .error fault σ') :
    e.result = .error fault := by
  obtain ⟨records, shown, hending⟩ := h.run_eq
  rw [hrun, Effect.ending] at hending
  cases hresult : e.result with
  | error fault' =>
    rw [hresult] at hending
    injection hending with hfault _
    rw [hfault]
  | ok y =>
    rw [hresult] at hending
    cases hending

theorem HasEffect.of_eq {a : Action α} {r r' : Except Fault α}
    (h : HasEffect w d a ⟨r, calls, d'⟩) (hr : r' = r) : HasEffect w d a ⟨r', calls, d'⟩ := hr ▸ h

theorem hasEffect_pure (x : α) : HasEffect w d (pure x) ⟨.ok x, [], d⟩ := by
  rintro σ - rfl
  exact ⟨σ.records, σ.shown, by simp [Effect.ending]⟩

theorem hasEffect_throw (fault : Fault) :
    HasEffect w d (throw fault : Action α) ⟨.error fault, [], d⟩ := by
  rintro σ - rfl
  refine ⟨σ.records, σ.shown, ?_⟩
  change EStateM.Result.error fault σ = _
  simp [Effect.ending]

theorem hasEffect_ofExcept (r : Except Fault α) : HasEffect w d (ofExcept r) ⟨r, [], d⟩ := by
  cases r with
  | ok x => exact hasEffect_pure x
  | error fault => exact hasEffect_throw fault

theorem HasEffect.bind {a : Action α} {f : α → Action β} {x : α} {r : Except Fault β}
    (ha : HasEffect w d a ⟨.ok x, calls, d'⟩) (hf : HasEffect w d' (f x) ⟨r, calls', d''⟩) :
    HasEffect w d (a >>= f) ⟨r, calls ++ calls', d''⟩ := by
  intro σ hw hd
  obtain ⟨records, shown, hrun⟩ := ha σ hw hd
  have hnext := hf
    { σ with directory := d', calls := σ.calls ++ calls, records, shown } hw rfl
  obtain ⟨records', shown', hrun'⟩ := hnext
  refine ⟨records', shown', ?_⟩
  rw [EStateM.run_bind, hrun]
  simpa only [Effect.ending, List.append_assoc] using hrun'

theorem HasEffect.bind_silent {a : Action α} {f : α → Action β} {x : α} {r : Except Fault β}
    (ha : HasEffect w d a ⟨.ok x, calls, d'⟩) (hf : HasEffect w d' (f x) ⟨r, [], d''⟩) :
    HasEffect w d (a >>= f) ⟨r, calls, d''⟩ := by
  have h := ha.bind hf
  rwa [List.append_nil] at h

theorem HasEffect.bind_error {a : Action α} {f : α → Action β} {fault : Fault}
    (ha : HasEffect w d a ⟨.error fault, calls, d'⟩) :
    HasEffect w d (a >>= f) ⟨.error fault, calls, d'⟩ := by
  intro σ hw hd
  obtain ⟨records, shown, hrun⟩ := ha σ hw hd
  refine ⟨records, shown, ?_⟩
  rw [EStateM.run_bind, hrun]
  rfl

/-- An action that looks at the session first has the effect that it has for every session it may
look at. -/
theorem hasEffect_get_bind {f : Session → Action α} {e : Effect α}
    (h : ∀ σ : Session, σ.workspace = w → σ.directory = d → HasEffect w d (f σ) e) :
    HasEffect w d (get >>= f) e := by
  intro σ hw hd
  exact h σ hw hd σ hw hd

theorem hasEffect_say (r : Record) : HasEffect w d (say r) ⟨.ok (), [], d⟩ := by
  rintro σ - rfl
  refine ⟨σ.records ++ [r], σ.shown ++ σ.diagnostics.render r, ?_⟩
  simp [Effect.ending, say]

/-- What is said on the way does not count. -/
theorem HasEffect.say_bind {f : Unit → Action α} {e : Effect α} {r : Record}
    (h : HasEffect w d (f ()) e) : HasEffect w d (say r >>= f) e := by
  exact (hasEffect_say r).bind h

/-- A command is run once, in the current directory unless another one is given. -/
theorem hasEffect_execute (command : List Text) (limit : Option Seconds)
    (directory : Option Path) :
    HasEffect w d (execute command limit directory)
      ⟨Command.resultIn w command limit, [⟨command, (directory.getD d).toText, limit⟩], d⟩ := by
  unfold execute
  apply HasEffect.say_bind
  rintro σ rfl rfl
  refine ⟨σ.records, σ.shown, ?_⟩
  simp only [EStateM.run_bind, EStateM.run_get, EStateM.run_set]
  cases Command.resultIn σ.workspace command limit with
  | ok r => rfl
  | error fault => rfl

theorem run_bind_eq_ok {a : Action α} {f : α → Action β} {y : β} {σ τ : Session}
    (h : (a >>= f).run σ = .ok y τ) : ∃ x ρ, a.run σ = .ok x ρ ∧ (f x).run ρ = .ok y τ := by
  rw [EStateM.run_bind] at h
  cases ha : a.run σ with
  | ok x ρ => exact ⟨x, ρ, rfl, by simpa only [ha] using h⟩
  | error fault ρ => simp [ha] at h

/-! ### Directories -/

/-- Why a directory cannot be entered. -/
def entryFault (w : Workspace) (p : Path) : Fault :=
  if w.isFile p then .notADirectory p.toText else .noSuchDirectory p.toText

/-- Where a change of the directory leads, however the path is spelled. -/
theorem hasEffect_changeDirectory_path (path : Text) (target : Path)
    (htarget : Path.resolve d (.ofText path) = target) :
    HasEffect w d (changeDirectory path)
      (if w.isDirectory target then ⟨.ok (), [], target⟩
        else ⟨.error (if w.isFile target then .notADirectory path else .noSuchDirectory path), [],
          d⟩) := by
  rintro σ rfl rfl
  refine ⟨σ.records, σ.shown, ?_⟩
  by_cases hdir : σ.workspace.isDirectory target = true
  · simp [changeDirectory, Effect.ending, htarget, hdir]
  · by_cases hfile : σ.workspace.isFile target = true <;>
      simp [changeDirectory, Effect.ending, htarget, hdir, hfile]

theorem hasEffect_changeDirectory {p : Path} (hp : p.Resolved) :
    HasEffect w d (changeDirectory p.toText)
      (if w.isDirectory p then ⟨.ok (), [], p⟩ else ⟨.error (entryFault w p), [], d⟩) :=
  hasEffect_changeDirectory_path p.toText p
    (by rw [Path.ofText_toText hp, Path.resolve_of_resolved hp])

/-- A directory that is current, or that exists, can be entered. -/
theorem hasEffect_enter {p : Path} (hp : p.Resolved) (h : d = p ∨ w.isDirectory p) :
    HasEffect w d (enter p) ⟨.ok (), [], p⟩ := by
  apply hasEffect_get_bind
  rintro σ rfl rfl
  by_cases hd : σ.directory = p
  · rw [if_neg (fun h => h hd)]
    exact hd ▸ hasEffect_pure ()
  · rw [if_pos hd]
    have hchange := hasEffect_changeDirectory (w := σ.workspace) (d := σ.directory) hp
    rwa [if_pos (h.resolve_left hd)] at hchange

/-- Whatever an action does, the session is back afterwards in the directory where it was. -/
theorem HasEffect.returning {a : Action α} {r : Except Fault α} (hd : d.Resolved)
    (hdir : w.isDirectory d) (ha : HasEffect w d a ⟨r, calls, d'⟩) :
    HasEffect w d (returning a) ⟨r, calls, d⟩ := by
  have hcaught : HasEffect w d (try let x ← a; pure (Except.ok x)
      catch fault => pure (Except.error fault)) ⟨.ok r, calls, d'⟩ := by
    intro σ hw hσ
    obtain ⟨records, shown, hrun⟩ := ha σ hw hσ
    refine ⟨records, shown, ?_⟩
    rw [run_caught, given, after, hrun]
    cases r with
    | ok x => rfl
    | error fault => rfl
  apply hasEffect_get_bind
  rintro σ - rfl
  have hback : HasEffect w d' (enter σ.directory >>= fun _ => ofExcept r) ⟨r, [], σ.directory⟩ :=
    (hasEffect_enter hd (Or.inr hdir)).bind (hasEffect_ofExcept r)
  exact hcaught.bind_silent hback

/-! ### Values -/

/-- What an action gives in a fresh session. -/
def value (w : Workspace) (d : Path) (a : Action α) : Except Fault α :=
  match a.run { workspace := w, directory := d } with
  | .ok x _ => .ok x
  | .error fault _ => .error fault

theorem HasEffect.value_eq {a : Action α} {e : Effect α} (h : HasEffect w d a e) :
    value w d a = e.result := by
  obtain ⟨records, shown, hrun⟩ := h { workspace := w, directory := d } rfl rfl
  rw [value, hrun, Effect.ending]
  cases e.result <;> rfl

@[simp] theorem value_ofExcept (r : Except Fault α) : value w d (ofExcept r) = r :=
  (hasEffect_ofExcept r).value_eq

/-- An action that only looks around: it runs no command and stays where it is. -/
def Quiet (w : Workspace) (d : Path) (a : Action α) : Prop :=
  HasEffect w d a ⟨value w d a, [], d⟩

theorem HasEffect.quiet {a : Action α} {r : Except Fault α} (h : HasEffect w d a ⟨r, [], d⟩) :
    Quiet w d a := by
  rw [Quiet, h.value_eq]
  exact h

theorem Quiet.hasEffect_bind {a : Action α} {f : α → Action β} (ha : Quiet w d a)
    (hf : ∀ x, Quiet w d (f x)) :
    HasEffect w d (a >>= f) ⟨value w d a >>= fun x => value w d (f x), [], d⟩ := by
  unfold Quiet at ha
  cases hr : value w d a with
  | ok x =>
    rw [hr] at ha
    exact ha.bind (hf x)
  | error fault =>
    rw [hr] at ha
    exact ha.bind_error

theorem hasEffect_mapM {f : α → Action β} (xs : List α) (hf : ∀ x, Quiet w d (f x)) :
    HasEffect w d (xs.mapM f) ⟨xs.mapM fun x => value w d (f x), [], d⟩ := by
  induction xs with
  | nil => exact hasEffect_pure []
  | cons x xs ih =>
    rw [List.mapM_cons, List.mapM_cons]
    have hrest (y : β) : HasEffect w d (xs.mapM f >>= fun ys => pure (y :: ys))
        ⟨(xs.mapM fun x => value w d (f x)) >>= fun ys => pure (y :: ys), [], d⟩ := by
      cases hr : xs.mapM fun x => value w d (f x) with
      | ok ys =>
        rw [hr] at ih
        exact ih.bind (hasEffect_pure (y :: ys))
      | error fault =>
        rw [hr] at ih
        exact ih.bind_error
    have hbind := (hf x).hasEffect_bind fun y => (hrest y).quiet
    simpa only [(hrest _).value_eq] using hbind

theorem hasEffect_anyM {p : α → Action Bool} {b : α → Bool} (xs : List α)
    (hp : ∀ x ∈ xs, HasEffect w d (p x) ⟨.ok (b x), [], d⟩) :
    HasEffect w d (xs.anyM p) ⟨.ok (xs.any b), [], d⟩ := by
  induction xs with
  | nil => exact hasEffect_pure false
  | cons x xs ih =>
    have hx := hp x List.mem_cons_self
    have hxs := ih fun y hy => hp y (List.mem_cons_of_mem _ hy)
    rw [List.anyM_cons, List.any_cons]
    cases hb : b x with
    | true =>
      rw [hb] at hx
      exact hx.bind (hasEffect_pure true)
    | false =>
      rw [hb] at hx
      exact hx.bind hxs

/-! ### Actions that may end early -/

section Early

variable {ε : Type} {x : ExceptT ε Action α} {f : α → ExceptT ε Action β}

theorem HasEffect.run_bind {a : α} {r : Except Fault (Except ε β)}
    (hx : HasEffect w d x.run ⟨.ok (.ok a), calls, d'⟩)
    (hf : HasEffect w d' (f a).run ⟨r, calls', d''⟩) :
    HasEffect w d (x >>= f).run ⟨r, calls ++ calls', d''⟩ := by
  rw [ExceptT.run_bind]
  exact hx.bind hf

theorem HasEffect.run_bind_early {e : ε}
    (hx : HasEffect w d x.run ⟨.ok (.error e), calls, d'⟩) :
    HasEffect w d (x >>= f).run ⟨.ok (.error e), calls, d'⟩ := by
  rw [ExceptT.run_bind]
  exact hx.bind_silent (hasEffect_pure _)

theorem HasEffect.run_bind_error {fault : Fault}
    (hx : HasEffect w d x.run ⟨.error fault, calls, d'⟩) :
    HasEffect w d (x >>= f).run ⟨.error fault, calls, d'⟩ := by
  rw [ExceptT.run_bind]
  exact hx.bind_error

theorem HasEffect.run_map {g : α → β} {r : Except Fault (Except ε α)}
    (hx : HasEffect w d x.run ⟨r, calls, d'⟩) :
    HasEffect w d (x >>= fun a => pure (g a)).run ⟨r.map (Except.map g), calls, d'⟩ := by
  cases r with
  | error fault => exact hx.run_bind_error
  | ok r =>
    cases r with
    | error e => exact hx.run_bind_early
    | ok a =>
      rw [ExceptT.run_bind]
      exact hx.bind_silent (hasEffect_pure _)

end Early

end LintReport.Action
