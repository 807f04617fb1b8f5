import LintReport.Settings.Load
import LintReport.Proofs.Json.Token
import LintReport.Proofs.Path.Nameable
import LintReport.Proofs.Session.Effect

/-!
Loaded settings. Settings are loaded by looking around only, so they are a function of the workspace
and of the current directory. Most values that cannot be used are problems with the settings, all of
which are collected. But paths are resolved before anything is checked, and a path that cannot be
resolved ends everything in a fault of its own.
-/
namespace LintReport

open LintReport.Action (HasEffect hasEffect_pure hasEffect_ofExcept hasEffect_get_bind)

variable {w : Workspace} {d : Path} {phpRoot jsRoot : Option Text} {overrides : Table Json}

namespace Settings

/-! ### Loading -/

/-- The section of the Composer file in a directory, as a workspace has it. -/
def sectionIn (w : Workspace) (d directory : Path) : Table Json :=
  match w.file? (Path.resolve d (directory.below "composer.json")) with
  | none => []
  | some bytes =>
    match documentOf bytes with
    | .ok document => sectionOf document
    | .error _ => []

/-- All that settings are made of: the section, the environment and the command line. -/
def membersIn (w : Workspace) (d directory : Path) (overrides : Table Json) : Table Json :=
  overridden overrides (withTimeout w.environment (sectionIn w d directory))

/-- The settings that are loaded in a workspace. -/
def loadIn (w : Workspace) (d : Path) (phpRoot jsRoot : Option Text) (overrides : Table Json) :
    Except Fault Settings := do
  let phpRoot ← rootFrom d phpRoot
  let jsRoot ← rootFrom d jsRoot
  ofSection d phpRoot jsRoot (membersIn w d phpRoot overrides)

/-- Loading begins with the roots. -/
theorem loadIn_cases (d : Path) (phpRoot jsRoot : Option Text) :
    (∃ fault, ∀ w overrides, loadIn w d phpRoot jsRoot overrides = .error fault) ∨
      ∃ php js, rootFrom d phpRoot = .ok php ∧ rootFrom d jsRoot = .ok js ∧
        ∀ w overrides, loadIn w d phpRoot jsRoot overrides =
          ofSection d php js (membersIn w d php overrides) := by
  cases hphp : rootFrom d phpRoot with
  | error fault => exact .inl ⟨fault, fun w overrides => by rw [loadIn, hphp]; rfl⟩
  | ok php =>
    cases hjs : rootFrom d jsRoot with
    | error fault => exact .inl ⟨fault, fun w overrides => by rw [loadIn, hphp, hjs]; rfl⟩
    | ok js => exact .inr ⟨php, js, rfl, rfl, fun w overrides => by rw [loadIn, hphp, hjs]; rfl⟩

theorem hasEffect_readComposerFile (directory : Path) :
    HasEffect w d (readComposerFile directory) ⟨.ok (sectionIn w d directory), [], d⟩ := by
  unfold readComposerFile sectionIn
  apply hasEffect_get_bind
  rintro σ rfl rfl
  cases σ.workspace.file? (Path.resolve σ.directory (directory.below "composer.json")) with
  | none => exact hasEffect_pure []
  | some bytes =>
    dsimp only
    apply HasEffect.say_bind
    cases documentOf bytes with
    | ok document => exact hasEffect_pure _
    | error name =>
      apply HasEffect.say_bind
      exact hasEffect_pure []

theorem hasEffect_ofExcept_bind {α β : Type} {r : Except Fault α} {f : α → Action β}
    {g : α → Except Fault β} (h : ∀ x, HasEffect w d (f x) ⟨g x, [], d⟩) :
    HasEffect w d (Action.ofExcept r >>= f) ⟨r >>= g, [], d⟩ := by
  cases r with
  | ok x => exact (hasEffect_pure x).bind (h x)
  | error fault => exact (Action.hasEffect_throw fault).bind_error

/-- Settings are loaded by looking around only. -/
theorem hasEffect_load (phpRoot jsRoot : Option Text) (overrides : Table Json) :
    HasEffect w d (load phpRoot jsRoot overrides) ⟨loadIn w d phpRoot jsRoot overrides, [], d⟩ := by
  apply hasEffect_get_bind
  rintro σ rfl rfl
  refine hasEffect_ofExcept_bind fun php => hasEffect_ofExcept_bind fun js => ?_
  refine (hasEffect_readComposerFile php).bind ?_
  apply hasEffect_get_bind
  rintro τ hworkspace -
  rw [hworkspace]
  exact hasEffect_ofExcept _

end Settings

/-! ### What cannot be loaded -/

/-- Is the fault one of a path, that it is no text or cannot be the name of a file? -/
def Fault.isOfPath : Fault → Bool
  | unencodable _ | nulInPath | notAPath _ => true
  | _ => false

namespace Workspace

theorem isOfPath_of_lookupFault? {before : Path} {names : List Text} {fault : Fault}
    (h : lookupFault? d before names = some fault) : fault.isOfPath = true := by
  induction names generalizing before with
  | nil => cases h
  | cons name names ih =>
    rw [lookupFault?, Option.or_eq_some_iff] at h
    rcases h with hname | ⟨-, hnames⟩
    · unfold nameFault? at hname
      split at hname
      · cases hname
        rfl
      · split at hname
        · cases hname
          rfl
        · cases hname
    · exact ih hnames

theorem isOfPath_of_resolve? {p : Path} {fault : Fault} (h : resolve? d p = .error fault) :
    fault.isOfPath = true := by
  unfold resolve? at h
  split at h
  · next hfault =>
    cases h
    exact isOfPath_of_lookupFault? hfault
  · cases h

end Workspace

namespace Settings

/-- The path that a value names, as it is seen from a directory. -/
def pathOf (d : Path) : Json → Except Fault Path
  | .string s => Workspace.resolve? d (.ofText s)
  | v => .error (.notAPath v)

/-- The root that an argument stands for; the directory itself if none is given. -/
def rootIn (d : Path) : Option Text → Path
  | some (c :: s) => Path.resolve d (.ofText (c :: s))
  | _ => d

/-- All that settings are made of can be resolved where it is a path: the arguments for the two
roots, and the value for the directory of the tools unless it is blank. These are texts, and no unit
in them is a null character or half of a surrogate pair that stands for no byte, not even in a name
that double dots take back. -/
structure NamesPaths (w : Workspace) (d : Path) (phpRoot jsRoot : Option Text)
    (overrides : Table Json) : Prop where
  php : ∀ s ∈ phpRoot, s.IsNameable
  js : ∀ s ∈ jsRoot, s.IsNameable
  binDir : ∀ v, Table.get? "bin_dir" (membersIn w d (rootIn d phpRoot) overrides) = some v →
    v.isBlank = false → ∃ s, v = .string s ∧ s.IsNameable

theorem rootFrom_eq_ok_iff {argument : Option Text} {p : Path} :
    rootFrom d argument = .ok p ↔ (∀ s ∈ argument, s.IsNameable) ∧ rootIn d argument = p := by
  unfold rootFrom rootIn
  split
  · next c s =>
    rw [Workspace.resolve?_ofText_eq_ok_iff]
    exact and_congr_left' ⟨fun h t ht => Option.some.inj ht ▸ h, fun h => h _ rfl⟩
  · next hnone =>
    have hall : ∀ s ∈ argument, s.IsNameable := by
      rintro (_ | ⟨c, s⟩) hs
      · exact nofun
      · exact absurd hs (hnone c s)
    simp only [Except.ok.injEq]
    exact (and_iff_right hall).symm

theorem exists_pathOf_iff {v : Json} :
    (∃ p, pathOf d v = .ok p) ↔ ∃ s, v = .string s ∧ s.IsNameable := by
  cases v with
  | string s =>
    rw [pathOf]
    simp only [Workspace.resolve?_ofText_eq_ok_iff, exists_and_left, exists_eq', and_true,
      Json.string.injEq]
    exact ⟨fun h => ⟨s, rfl, h⟩, fun ⟨t, ht, h⟩ => ht ▸ h⟩
  | _ => exact iff_of_false (fun ⟨_, h⟩ => nomatch h) fun ⟨_, h, _⟩ => nomatch h

theorem isOfPath_of_rootFrom {argument : Option Text} {fault : Fault}
    (h : rootFrom d argument = .error fault) : fault.isOfPath = true := by
  unfold rootFrom at h
  split at h
  · exact Workspace.isOfPath_of_resolve? h
  · cases h

theorem isOfPath_of_pathOf {v : Json} {fault : Fault} (h : pathOf d v = .error fault) :
    fault.isOfPath = true := by
  unfold pathOf at h
  split at h
  · exact Workspace.isOfPath_of_resolve? h
  · cases h
    rfl

variable {members : Table Json}

theorem resolvedBinDir?_of_get {v : Json} (hget : Table.get? "bin_dir" members = some v)
    (hblank : v.isBlank = false) : resolvedBinDir? d members = (pathOf d v).map some := by
  rw [resolvedBinDir?, hget]
  dsimp only
  rw [if_neg (by simp [hblank])]
  cases v <;> rfl

/-- The directory of the tools is left to the checks, or it is the path of a value that is not
blank. -/
theorem resolvedBinDir?_cases (d : Path) (members : Table Json) :
    resolvedBinDir? d members = .ok none ∧
        (∀ v, Table.get? "bin_dir" members = some v → v.isBlank = true) ∨
      ∃ v, Table.get? "bin_dir" members = some v ∧ v.isBlank = false ∧
        resolvedBinDir? d members = (pathOf d v).map some := by
  cases hget : Table.get? "bin_dir" members with
  | none => exact .inl ⟨by rw [resolvedBinDir?, hget], nofun⟩
  | some v =>
    cases hblank : v.isBlank with
    | true =>
      refine .inl ⟨?_, fun v' hv' => Option.some.inj hv' ▸ hblank⟩
      rw [resolvedBinDir?, hget]
      exact if_pos hblank
    | false => exact .inr ⟨v, rfl, hblank, resolvedBinDir?_of_get hget hblank⟩

theorem exists_resolvedBinDir?_iff :
    (∃ binDir, resolvedBinDir? d members = .ok binDir) ↔
      ∀ v, Table.get? "bin_dir" members = some v → v.isBlank = false →
        ∃ p, pathOf d v = .ok p := by
  rcases resolvedBinDir?_cases d members with ⟨hnone, hblank⟩ | ⟨v, hget, hblank, hpath⟩
  · refine iff_of_true ⟨none, hnone⟩ fun v hget hnot => ?_
    cases (hblank v hget).symm.trans hnot
  · rw [hpath]
    constructor
    · rintro ⟨binDir, hbinDir⟩ v' hget' -
      cases hget.symm.trans hget'
      obtain ⟨p, hp, -⟩ := Json.map_eq_ok hbinDir
      exact ⟨p, hp⟩
    · intro h
      obtain ⟨p, hp⟩ := h v hget hblank
      exact ⟨some p, by rw [hp]; rfl⟩

theorem isOfPath_of_resolvedBinDir? {fault : Fault}
    (h : resolvedBinDir? d members = .error fault) : fault.isOfPath = true := by
  rcases resolvedBinDir?_cases d members with ⟨hnone, -⟩ | ⟨v, -, -, hpath⟩
  · cases hnone.symm.trans h
  · rw [hpath] at h
    cases hp : pathOf d v with
    | ok p =>
      rw [hp] at h
      cases h
    | error fault' =>
      rw [hp] at h
      cases h
      exact isOfPath_of_pathOf hp

/-- All that settings are made of can be resolved if loading gets past the paths. -/
theorem namesPaths_iff : NamesPaths w d phpRoot jsRoot overrides ↔
    ∃ php js binDir, rootFrom d phpRoot = .ok php ∧ rootFrom d jsRoot = .ok js ∧
      resolvedBinDir? d (membersIn w d php overrides) = .ok binDir := by
  simp only [rootFrom_eq_ok_iff]
  constructor
  · rintro ⟨hphp, hjs, h⟩
    obtain ⟨binDir, hbinDir⟩ := exists_resolvedBinDir?_iff.mpr fun v hget hblank =>
      exists_pathOf_iff.mpr (h v hget hblank)
    exact ⟨_, _, binDir, ⟨hphp, rfl⟩, ⟨hjs, rfl⟩, hbinDir⟩
  · rintro ⟨php, js, binDir, ⟨hphp, rfl⟩, ⟨hjs, -⟩, hbinDir⟩
    exact ⟨hphp, hjs, fun v hget hblank =>
      exists_pathOf_iff.mp (exists_resolvedBinDir?_iff.mp ⟨binDir, hbinDir⟩ v hget hblank)⟩

/-- A table has settings, or all problems with it. -/
theorem ofTable_spec (d : Path) (members : Table Json) :
    (∃ s, ofTable d members = .ok s) ∨
      ∃ problems, problems ≠ [] ∧ ofTable d members = .error (.invalidSettings problems) := by
  unfold ofTable Checked.toExcept
  split
  · exact .inl ⟨_, rfl⟩
  · next hproblems => exact .inr ⟨_, hproblems, rfl⟩

theorem ofSection_of_binDir {php js : Path} {binDir : Option Path}
    (h : resolvedBinDir? d members = .ok binDir) :
    (∃ s, ofSection d php js members = .ok s) ∨
      ∃ problems, problems ≠ [] ∧
        ofSection d php js members = .error (.invalidSettings problems) := by
  simp only [ofSection, h, bind, Except.bind]
  generalize without _ members = kept
  rcases ofTable_spec d kept with ⟨s, hs⟩ | ⟨problems, hne, hproblems⟩
  · rw [hs]
    exact .inl ⟨_, rfl⟩
  · rw [hproblems]
    exact .inr ⟨problems, hne, rfl⟩

/-- Where all paths can be resolved, settings are loaded or all problems with them are reported.
Otherwise the first path that cannot be resolved ends everything in its fault. -/
theorem loadIn_spec (w : Workspace) (d : Path) (phpRoot jsRoot : Option Text)
    (overrides : Table Json) :
    (NamesPaths w d phpRoot jsRoot overrides →
      (∃ s, loadIn w d phpRoot jsRoot overrides = .ok s) ∨
        ∃ problems, problems ≠ [] ∧
          loadIn w d phpRoot jsRoot overrides = .error (.invalidSettings problems)) ∧
    (¬ NamesPaths w d phpRoot jsRoot overrides →
      ∃ fault, fault.isOfPath = true ∧ loadIn w d phpRoot jsRoot overrides = .error fault) := by
  rw [namesPaths_iff]
  unfold loadIn
  cases hphp : rootFrom d phpRoot with
  | error fault => exact ⟨nofun, fun _ => ⟨fault, isOfPath_of_rootFrom hphp, rfl⟩⟩
  | ok php =>
    cases hjs : rootFrom d jsRoot with
    | error fault => exact ⟨nofun, fun _ => ⟨fault, isOfPath_of_rootFrom hjs, rfl⟩⟩
    | ok js =>
      cases hbinDir : resolvedBinDir? d (membersIn w d php overrides) with
      | error fault =>
        refine ⟨?_, fun _ => ⟨fault, isOfPath_of_resolvedBinDir? hbinDir, ?_⟩⟩
        · rintro ⟨php', js', binDir, heq, -, hok⟩
          cases heq
          cases hbinDir.symm.trans hok
        · simp only [bind, Except.bind, ofSection, hbinDir]
      | ok binDir =>
        exact ⟨fun _ => ofSection_of_binDir hbinDir,
          fun hnot => absurd ⟨php, js, binDir, rfl, rfl, hbinDir⟩ hnot⟩

end Settings

end LintReport
