import LintReport.Workspace.Snapshot
import LintReport.Proofs.Settings.Loaded

/-!
The roots of a run. A session lies in a resolved directory that exists, and both roots that settings
get there are resolved, so it makes no difference from where they are entered.
-/
namespace LintReport

/-- A session lies in a directory that exists, by its resolved path. -/
structure Session.Placed (σ : Session) : Prop where
  resolved : σ.directory.Resolved
  exists_directory : σ.workspace.isDirectory σ.directory

theorem Session.Placed.congr {σ τ : Session} (hσ : σ.Placed) (hw : τ.workspace = σ.workspace)
    (hd : τ.directory = σ.directory) : τ.Placed where
  resolved := hd ▸ hσ.resolved
  exists_directory := hw ▸ hd ▸ hσ.exists_directory

namespace Snapshot

theorem resolved_home : home.Resolved :=
  ⟨by decide, by simp [home, Path.IsEntry, Text.ofString], by decide⟩

end Snapshot

namespace Settings

theorem resolved_rootFrom {d p : Path} {argument : Option Text} (hd : d.Resolved)
    (h : rootFrom d argument = .ok p) : p.Resolved := by
  obtain ⟨-, rfl⟩ := rootFrom_eq_ok_iff.mp h
  unfold rootIn
  split
  · exact Path.resolved_resolve hd _
  · exact hd

theorem roots_ofSection {d phpRoot jsRoot : Path} {members : Table Json} {s : Settings}
    (h : ofSection d phpRoot jsRoot members = .ok s) : s.phpRoot = phpRoot ∧ s.jsRoot = jsRoot := by
  unfold ofSection at h
  cases hbin : resolvedBinDir? d members with
  | error fault => simp [hbin, bind, Except.bind] at h
  | ok binDir =>
    simp only [hbin, bind, Except.bind] at h
    split at h
    · cases h
    · have hs := Except.ok.inj h
      exact ⟨hs ▸ rfl, hs ▸ rfl⟩

/-- The roots of loaded settings are those that the arguments name. -/
theorem roots_of_loadIn {w : Workspace} {d : Path} {phpRoot jsRoot : Option Text}
    {overrides : Table Json} {s : Settings} (h : loadIn w d phpRoot jsRoot overrides = .ok s) :
    rootFrom d phpRoot = .ok s.phpRoot ∧ rootFrom d jsRoot = .ok s.jsRoot := by
  rcases loadIn_cases d phpRoot jsRoot with ⟨fault, hfault⟩ | ⟨php, js, hphp, hjs, hload⟩
  · rw [hfault] at h
    cases h
  · rw [hload] at h
    obtain ⟨hphpRoot, hjsRoot⟩ := roots_ofSection h
    exact ⟨hphpRoot ▸ hphp, hjsRoot ▸ hjs⟩

/-- The roots of loaded settings are resolved, whatever was given for them. -/
theorem resolved_roots {σ τ : Session} {phpRoot jsRoot : Option Text} {overrides : Table Json}
    {s : Settings} (hσ : σ.directory.Resolved)
    (h : (load phpRoot jsRoot overrides).run σ = .ok s τ) (g : Tool.Group) :
    (s.root g).Resolved := by
  obtain ⟨hphp, hjs⟩ := roots_of_loadIn ((hasEffect_load _ _ _).of_run h).1
  cases g with
  | php => exact resolved_rootFrom hσ hphp
  | js => exact resolved_rootFrom hσ hjs

end Settings

end LintReport
