import LintReport.Proofs.Settings.Named
import LintReport.Tool.Command

/-!
The directories of loaded settings. The roots and the directory of the tools are resolved against the
current directory when settings are loaded, so that they mean the same wherever a run goes. Only an
empty text for the directory of the tools is not resolved: it is left to the rule for paths and
stands for the current directory, whichever that is.
-/
namespace LintReport

open Table (get?)

variable {d e php js p : Path} {name : Text} {members overrides : Table Json}
  {phpRoot jsRoot : Option Text} {s : Settings} {t : Tool}

/-! ### Absolute paths -/

namespace Path

theorem root_append (p q : Path) : (p ++ q).root = if q.root = .relative then p.root else q.root := by
  split
  · next hq => rw [append_of_relative hq]
  · next hq => rw [append_of_absolute hq]

theorem isAbsolute_iff : p.isAbsolute = true ↔ p.root ≠ .relative := decide_eq_true_iff

/-- What is seen from an absolute directory is absolute. -/
theorem isAbsolute_resolve (hd : d.isAbsolute = true) (p : Path) :
    (resolve d p).isAbsolute = true := by
  rw [isAbsolute_iff] at hd ⊢
  change (d ++ p).root ≠ .relative
  rw [root_append]
  split
  · exact hd
  · next hp => exact hp

theorem isAbsolute_append (hq : q.root = .relative) : (p ++ q).isAbsolute = p.isAbsolute := by
  rw [isAbsolute, isAbsolute, root_append, if_pos hq]

end Path

namespace Settings

/-! ### The directory of the tools -/

/-- The directory of the tools that a section gives, nothing if it is left to the root. -/
def binDirIn (d : Path) (members : Table Json) : Except Fault (Option Path) :=
  (resolvedBinDir? d members).map
    (·.or (setting ["bin_dir"] none (nullable path) members).value)

/-- What is left of a section to be checked when the directory of its tools has been resolved. -/
def kept (binDir : Option Path) (members : Table Json) : Table Json :=
  without (resolvedNames binDir) members

theorem get?_kept_of_ne (binDir : Option Path) (hname : name ≠ "bin_dir") :
    get? name (kept binDir members) = if name ∈ rootNames then none else get? name members := by
  have hmem : name ∈ resolvedNames binDir ↔ name ∈ rootNames := by
    rw [resolvedNames, List.mem_append]
    refine or_iff_left fun h => hname ?_
    split at h
    · exact List.mem_singleton.mp h
    · cases h
  rw [kept, get?_without]
  exact if_congr hmem rfl rfl

theorem get?_kept_binDir (binDir : Option Path) (members : Table Json) :
    get? "bin_dir" (kept binDir members) =
      if binDir.isSome then none else get? "bin_dir" members := by
  have hmem : Text.ofString "bin_dir" ∈ resolvedNames binDir ↔ binDir.isSome := by
    cases binDir with
    | none => decide +kernel
    | some p => exact iff_of_true (List.mem_append_right _ List.mem_cons_self) rfl
  rw [kept, get?_without]
  exact if_congr hmem rfl rfl

theorem binDirIn_eq {binDir : Option Path} (h : resolvedBinDir? d members = .ok binDir) :
    binDirIn d members = .ok (binDir.or (check d (kept binDir members)).value.binDir) := by
  rw [binDirIn, h]
  cases binDir with
  | some p => rfl
  | none =>
    have hsetting : setting ["bin_dir"] none (nullable path) (kept none members) =
        setting ["bin_dir"] none (nullable path) members :=
      setting_congr fun name hname => by
        rw [List.mem_singleton.mp hname, get?_kept_binDir]
        rfl
    change Except.ok _ = Except.ok ((none : Option Path).or
      (setting ["bin_dir"] none (nullable path) (kept none members)).value)
    rw [hsetting]

theorem loadIn_of_roots {w : Workspace} (hphp : rootFrom d phpRoot = .ok php)
    (hjs : rootFrom d jsRoot = .ok js) :
    loadIn w d phpRoot jsRoot overrides = ofSection d php js (membersIn w d php overrides) := by
  rw [loadIn, hphp, hjs]
  rfl

/-- The directory of the tools of loaded settings is the one that the section gives. -/
theorem binDirIn_of_ok (h : ofSection d php js members = .ok s) :
    binDirIn d members = .ok s.binDir := by
  obtain ⟨binDir, hbinDir, -, rfl⟩ := ofSection_eq_ok.mp h
  exact binDirIn_eq hbinDir

theorem value_setting_of_get {α : Type} {default : α} {rule : Rule α} {v : Json}
    (h : get? name members = some v) :
    (setting [name] default rule members).value = (rule v).toOption.getD default := by
  have hgiven : given? [name] members = some (name, v) := by
    rw [given?, List.findSome?_cons, h]
    rfl
  rw [setting, hgiven]
  dsimp only
  cases rule v <;> rfl

theorem isAbsolute_rootFrom (hd : d.isAbsolute = true) (h : rootFrom d phpRoot = .ok p) :
    p.isAbsolute = true := by
  obtain ⟨-, rfl⟩ := rootFrom_eq_ok_iff.mp h
  unfold rootIn
  split
  · exact Path.isAbsolute_resolve hd _
  · exact hd

theorem isAbsolute_of_pathOf (hd : d.isAbsolute = true) {v : Json} (h : pathOf d v = .ok p) :
    p.isAbsolute = true := by
  unfold pathOf at h
  split at h
  · obtain ⟨-, rfl⟩ := Workspace.resolve?_ofText_eq_ok_iff.mp h
    exact Path.isAbsolute_resolve hd _
  · cases h

/-- A blank value for a path is an empty text or gives no path. -/
theorem blank_path {v : Json} (h : v.isBlank = true) :
    v = .string [] ∨ v ≠ .string [] ∧ (nullable path v).toOption.getD none = none := by
  cases v with
  | string s =>
    left
    rw [List.isEmpty_iff.mp h]
  | _ => exact .inr ⟨nofun, rfl⟩

/-- What a section gives for the directory of the tools is absolute, unless it is an empty text,
which is the current directory. -/
theorem binDirIn_cases (hd : d.isAbsolute = true) {binDir : Option Path}
    (h : binDirIn d members = .ok binDir) :
    get? "bin_dir" members = some (.string []) ∧ binDir = some (Path.ofText []) ∨
      get? "bin_dir" members ≠ some (.string []) ∧ ∀ p ∈ binDir, p.isAbsolute = true := by
  rcases resolvedBinDir?_cases d members with ⟨hnone, hblank⟩ | ⟨v, hget, hblank, hpath⟩
  · rw [binDirIn, hnone] at h
    have hvalue : binDir = (setting ["bin_dir"] none (nullable path) members).value :=
      (Except.ok.inj h).symm
    subst hvalue
    cases hget : get? "bin_dir" members with
    | none =>
      refine .inr ⟨nofun, fun p hp => ?_⟩
      rw [setting, given?, List.findSome?_cons, hget] at hp
      cases hp
    | some v =>
      rw [value_setting_of_get hget]
      rcases blank_path (hblank v hget) with rfl | ⟨hne, hvalue⟩
      · exact .inl ⟨rfl, rfl⟩
      · refine .inr ⟨fun heq => hne (Option.some.inj heq), fun p hp => ?_⟩
        rw [hvalue] at hp
        cases hp
  · right
    rw [hget]
    refine ⟨fun heq => ?_, fun p hp => ?_⟩
    · cases Option.some.inj heq
      cases hblank
    · rw [binDirIn, hpath] at h
      obtain ⟨given, hgiven, heq⟩ := Json.map_eq_ok h
      obtain ⟨q, hq, rfl⟩ := Json.map_eq_ok hgiven
      cases heq
      cases hp
      exact isAbsolute_of_pathOf hd hq

/-! ### Availability -/

theorem root_place (t : Tool) : (Path.ofText t.place).root = .relative := by
  cases t <;> rfl

/-- Where a tool lies is as absolute as the directory that its group lies in. -/
theorem isAbsolute_binary (hjs : s.jsRoot.isAbsolute = true) (t : Tool) :
    (t.binary s).isAbsolute = true ↔ (t.group = .php → s.toolDir.isAbsolute = true) := by
  unfold Tool.binary
  cases t.group with
  | php =>
    dsimp only
    rw [Path.isAbsolute_append (root_place t)]
    exact ⟨fun h _ => h, fun h => h rfl⟩
  | js =>
    dsimp only
    rw [Path.isAbsolute_append (root_place t), Path.below, Path.isAbsolute_append rfl]
    exact iff_of_true hjs nofun

/-- A workspace with nothing but a tool in its root directory. -/
def atRoot (t : Tool) : Workspace where
  files := [(⟨.slash, [t.place]⟩, [])]

/-- A PHP tool in the current directory is another file from elsewhere, and may not be there. -/
theorem binary_of_current (ht : t.group = .php) (hdir : s.toolDir = Path.ofText []) :
    Path.resolve ⟨.slash, []⟩ (t.binary s) ≠ Path.resolve Snapshot.home (t.binary s) ∧
      t.isAvailable (atRoot t) ⟨.slash, []⟩ s = true ∧
      t.isAvailable (atRoot t) Snapshot.home s = false := by
  have hbinary : t.binary s = Path.ofText [] ++ Path.ofText t.place := by
    rw [Tool.binary, ht, ← hdir]
  rw [Tool.isAvailable, Tool.isAvailable, hbinary]
  cases t with
  | psalm => decide +kernel
  | phpStan => decide +kernel
  | phpCs => decide +kernel
  | ecs => decide +kernel
  | esLint => cases ht
  | styleLint => cases ht
  | biome => cases ht

/-- What a PHP tool in the current directory is depends on which one that is, and nothing else
does. -/
theorem binary_iff (hjs : s.jsRoot.isAbsolute = true)
    (hdir : s.toolDir.isAbsolute = true ∨ s.toolDir = Path.ofText []) (t : Tool) :
    ((∀ d e, Path.resolve d (t.binary s) = Path.resolve e (t.binary s)) ↔
        (t.group = .php → s.toolDir.isAbsolute = true)) ∧
      ((∀ w d e, t.isAvailable w d s = t.isAvailable w e s) ↔
        (t.group = .php → s.toolDir.isAbsolute = true)) := by
  have hsame (h : t.group = .php → s.toolDir.isAbsolute = true) (d e : Path) :
      Path.resolve d (t.binary s) = Path.resolve e (t.binary s) :=
    Path.resolve_of_absolute (Path.isAbsolute_iff.mp ((isAbsolute_binary hjs t).mpr h)) d e
  have hcurrent (ht : t.group = .php) (h : ¬ s.toolDir.isAbsolute = true) :=
    binary_of_current ht (hdir.resolve_left h)
  refine ⟨⟨fun h ht => ?_, hsame⟩, ⟨fun h ht => ?_, fun h w d e => ?_⟩⟩
  · by_contra hnot
    exact (hcurrent ht hnot).1 (h _ _)
  · by_contra hnot
    obtain ⟨-, hthere, helsewhere⟩ := hcurrent ht hnot
    rw [h (atRoot t) _ Snapshot.home, helsewhere] at hthere
    cases hthere
  · rw [Tool.isAvailable, hsame h d e, Tool.isAvailable]

/-- The roots of loaded settings are absolute, and so is the directory of the tools unless it is
given as an empty text. Where a tool lies, and whether it is there, does not depend on the current
directory, but for a PHP tool in a directory that is not absolute. -/
theorem load_absolute {σ : Session} (hdirectory : σ.directory.isAbsolute = true)
    (h : (load phpRoot jsRoot overrides).given σ = .ok s) :
    s.phpRoot.isAbsolute = true ∧ s.jsRoot.isAbsolute = true ∧
      (s.toolDir.isAbsolute = true ↔
        get? "bin_dir" (membersIn σ.workspace σ.directory s.phpRoot overrides) ≠
          some (.string [])) ∧
      ∀ t : Tool,
        ((∀ d e, Path.resolve d (t.binary s) = Path.resolve e (t.binary s)) ↔
          (t.group = .php → s.toolDir.isAbsolute = true)) ∧
        ((∀ w d e, t.isAvailable w d s = t.isAvailable w e s) ↔
          (t.group = .php → s.toolDir.isAbsolute = true)) := by
  rw [(hasEffect_load _ _ _).given_eq] at h
  obtain ⟨hphp, hjs⟩ := roots_of_loadIn h
  have hphpRoot := isAbsolute_rootFrom hdirectory hphp
  have hjsRoot := isAbsolute_rootFrom hdirectory hjs
  dsimp only at h
  rw [loadIn_of_roots hphp hjs] at h
  have hdefault : (s.phpRoot.below "vendor/bin").isAbsolute = true :=
    (Path.isAbsolute_append rfl).trans hphpRoot
  rcases binDirIn_cases hdirectory (binDirIn_of_ok h) with ⟨hempty, hbinDir⟩ | ⟨hne, hbinDir⟩
  · have hdir : s.toolDir = Path.ofText [] := by
      rw [toolDir, hbinDir]
      rfl
    refine ⟨hphpRoot, hjsRoot, ?_, binary_iff hjsRoot (.inr hdir)⟩
    rw [hdir]
    exact iff_of_false (by decide) (not_not_intro hempty)
  · have hdir : s.toolDir.isAbsolute = true := by
      unfold toolDir
      cases hp : s.binDir with
      | none => exact hdefault
      | some p => exact hbinDir p hp
    exact ⟨hphpRoot, hjsRoot, iff_of_true hdir hne, binary_iff hjsRoot (.inl hdir)⟩

/-- A project with an empty text for the directory of the tools. -/
def emptyBinDir : Session := composerSession "\"bin_dir\":\"\"" []

/-- Its tools are looked for in the current directory. -/
theorem load_absolute_emptyBinDir :
    ∃ s, (load none none []).given emptyBinDir = .ok s ∧ s.phpRoot.isAbsolute = true ∧
      get? "bin_dir" (membersIn emptyBinDir.workspace emptyBinDir.directory s.phpRoot []) =
        some (.string []) ∧
      ¬ ∀ w d e, Tool.psalm.isAvailable w d s = Tool.psalm.isAvailable w e s := by
  have hdir : ((load none none []).given emptyBinDir).toOption.map
      (fun s => s.toolDir.isAbsolute) = some false := by decide +kernel
  cases hs : (load none none []).given emptyBinDir with
  | error fault =>
    rw [hs] at hdir
    cases hdir
  | ok s =>
    rw [hs] at hdir
    have hrelative : s.toolDir.isAbsolute = false := Option.some.inj hdir
    obtain ⟨hphp, -, hbinDir, htools⟩ := load_absolute (σ := emptyBinDir) rfl hs
    refine ⟨s, rfl, hphp, ?_, fun hsame => ?_⟩
    · by_contra hne
      rw [hbinDir.mpr hne] at hrelative
      cases hrelative
    · have habsolute := (htools .psalm).2.mp hsame rfl
      rw [habsolute] at hrelative
      cases hrelative

end Settings

end LintReport
