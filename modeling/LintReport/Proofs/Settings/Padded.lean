import LintReport.Proofs.Settings.Directories
import LintReport.Proofs.Settings.Trims

/-!
Values with spaces around them. The directory of the tools is resolved with its spaces before any
rule sees it; all other values are left to the rules. The outcome of loading stays the same where
neither the directory nor what has to be given exactly is touched, and nowhere else.
-/
namespace LintReport

open Table (get? Entries)
open Text (Spaced)
open Json (Padded)

variable {α : Type} {d php js : Path} {name : Text} {names : List Text}
  {members members' : Table Json} {rule : Settings.Rule α} {exact : Json → Prop}

/-- Two faults say the same: that the same settings are a problem, that a path cannot be encoded, or
altogether the same. -/
def Fault.Alike : Fault → Fault → Prop
  | .invalidSettings problems, .invalidSettings problems' =>
    problems'.map Problem.field = problems.map Problem.field
  | .unencodable _, .unencodable _ => True
  | fault, fault' => fault' = fault

namespace Settings

/-! ### Sections -/

/-- A text for the directory of the tools is never a problem of the checks. -/
theorem fields_binDir_of_text {binDir : Option Path} {s : Text}
    (hget : get? "bin_dir" members = some (.string s))
    (h : resolvedBinDir? d members = .ok binDir) :
    (setting ["bin_dir"] none (nullable path) (kept binDir members)).fields = [] := by
  have hgiven : given? ["bin_dir"] (kept binDir members) =
      if binDir.isSome then none else some (Text.ofString "bin_dir", .string s) := by
    rw [given?, List.findSome?_cons, get?_kept_binDir, hget]
    cases binDir <;> rfl
  rw [setting, hgiven]
  cases binDir with
  | some p => rfl
  | none =>
    cases s with
    | nil => rfl
    | cons c s =>
      rw [resolvedBinDir?_of_get hget rfl, pathOf] at h
      obtain ⟨p, -, hp⟩ := Json.map_eq_ok h
      cases hp

theorem fields_binDir_padded {binDir binDir' : Option Path}
    (hpadded : Option.Rel Padded (get? "bin_dir" members) (get? "bin_dir" members'))
    (h : resolvedBinDir? d members = .ok binDir) (h' : resolvedBinDir? d members' = .ok binDir') :
    (setting ["bin_dir"] none (nullable path) (kept binDir' members')).fields =
      (setting ["bin_dir"] none (nullable path) (kept binDir members)).fields := by
  have hsame (hget : get? "bin_dir" members = get? "bin_dir" members') :
      (setting ["bin_dir"] none (nullable path) (kept binDir' members')).fields =
        (setting ["bin_dir"] none (nullable path) (kept binDir members)).fields := by
    rw [resolvedBinDir?_congr d hget, h'] at h
    cases h
    refine congrArg _ (setting_congr fun name hname => ?_)
    rw [List.mem_singleton.mp hname, get?_kept_binDir, get?_kept_binDir, hget]
  generalize hv : get? "bin_dir" members = v at hpadded
  generalize hv' : get? "bin_dir" members' = v' at hpadded
  rcases hpadded with (hvalue | _)
  · cases hvalue with
    | same v => exact hsame (hv.trans hv'.symm)
    | spaced _ => rw [fields_binDir_of_text hv h, fields_binDir_of_text hv' h']
  · exact hsame (hv.trans hv'.symm)

theorem spares_kept (binDir binDir' : Option Path)
    (hnames : ∀ name ∈ names, name ≠ "bin_dir" ∧ name ∉ rootNames) :
    Spares names rule exact (kept binDir members) (kept binDir' members') ↔
      Spares names rule exact members members' := by
  have hgiven (binDir : Option Path) (members : Table Json) :
      given? names (kept binDir members) = given? names members :=
    given?_congr fun name hname => by
      rw [get?_kept_of_ne binDir (hnames name hname).1, if_neg (hnames name hname).2]
  rw [Spares, Spares, hgiven, hgiven]

theorem WordsSpared.imp {a a' b b' : Table Json}
    (h : ∀ {α : Type} {names : List Text} {rule : Rule α} {exact : Json → Prop},
      (∀ name ∈ names, name ≠ "bin_dir" ∧ name ∉ rootNames) →
        Spares names rule exact a a' → Spares names rule exact b b')
    (hwords : WordsSpared a a') : WordsSpared b b' where
  reporter := h (by decide +kernel) hwords.reporter
  stats := h (by decide +kernel) hwords.stats
  silent := h (by decide +kernel) hwords.silent
  cache := h (by decide +kernel) hwords.cache
  strict := h (by decide +kernel) hwords.strict
  timeout := h (by decide +kernel) hwords.timeout

theorem wordsSpared_kept (binDir binDir' : Option Path) :
    WordsSpared (kept binDir members) (kept binDir' members') ↔ WordsSpared members members' :=
  ⟨.imp fun hnames => (spares_kept _ _ hnames).mp, .imp fun hnames => (spares_kept _ _ hnames).mpr⟩

/-- Spaces in a section, the roots and the resolved directory of the tools taken out. -/
theorem check_kept_padded {binDir binDir' : Option Path}
    (hpadded : ∀ name, Option.Rel Padded (get? name members) (get? name members'))
    (h : resolvedBinDir? d members = .ok binDir) (h' : resolvedBinDir? d members' = .ok binDir') :
    ((check d (kept binDir' members')).fields = (check d (kept binDir members)).fields ↔
        WordsSpared members members') ∧
      (WordsSpared members members' → (check d (kept binDir' members')).value.withoutBinDir =
        (check d (kept binDir members)).value.withoutBinDir) := by
  have hrel : ∀ name : Text, name ≠ "bin_dir" →
      Option.Rel Padded (get? name (kept binDir members)) (get? name (kept binDir' members')) := by
    intro name hname
    rw [get?_kept_of_ne binDir hname, get?_kept_of_ne binDir' hname]
    split
    · exact .none
    · exact hpadded name
  have hcheck := check_padded d hrel (fields_binDir_padded (hpadded _) h h')
  rw [← wordsSpared_kept binDir binDir']
  exact ⟨hcheck.fields_eq_iff, hcheck.value⟩

/-! ### Outcomes -/

/-- Loading comes to the same: to the same settings, or to faults that say the same. -/
inductive SameLoad : (loaded loaded' : Except Fault Settings) → Prop
  | settings (s : Settings) : SameLoad (.ok s) (.ok s)
  | fault {fault fault' : Fault} (h : fault.Alike fault') : SameLoad (.error fault) (.error fault')

theorem SameLoad.eq_of_ok {s s' : Settings} (h : SameLoad (.ok s) (.ok s')) : s' = s := by
  cases h
  rfl

/-- The spaces make no difference: the directory of the tools cannot be resolved either way, or
something else in the section is a problem, or the directory is the same. In the last two cases the
words are spared. -/
inductive Spared (d : Path) (members members' : Table Json) : Prop
  | unresolved {fault fault' : Fault} (h : resolvedBinDir? d members = .error fault)
      (h' : resolvedBinDir? d members' = .error fault') (halike : fault.Alike fault')
  | refused {binDir binDir' : Option Path} (h : resolvedBinDir? d members = .ok binDir)
      (h' : resolvedBinDir? d members' = .ok binDir') (hwords : WordsSpared members members')
      (hrefused : (check d (kept binDir members)).fields ≠ [])
  | spared {binDir : Option Path} (h : binDirIn d members = .ok binDir)
      (h' : binDirIn d members' = .ok binDir) (hwords : WordsSpared members members')

theorem Checked.fields_eq_nil {c : Checked α} : c.fields = [] ↔ c.problems = [] :=
  List.map_eq_nil_iff

theorem withPaths_eq {binDir binDir' : Option Path} {s s' : Settings}
    (hrest : s'.withoutBinDir = s.withoutBinDir)
    (hbinDir : binDir'.or s'.binDir = binDir.or s.binDir) :
    withPaths php js binDir' s' = withPaths php js binDir s := by
  have hpaths (binDir : Option Path) (s : Settings) : withPaths php js binDir s =
      { s.withoutBinDir with phpRoot := php, jsRoot := js, binDir := binDir.or s.binDir } := rfl
  rw [hpaths, hpaths, hrest, hbinDir]

theorem ofSection_of_checked {binDir : Option Path} (h : resolvedBinDir? d members = .ok binDir) :
    ofSection d php js members =
      if (check d (kept binDir members)).fields = [] then
        .ok (withPaths php js binDir (check d (kept binDir members)).value)
      else .error (.invalidSettings (check d (kept binDir members)).problems) := by
  rw [ofSection_eq, h]
  change Except.map _ ((check d (kept binDir members)).toExcept.mapError Fault.invalidSettings) = _
  rw [Checked.toExcept]
  by_cases hnone : (check d (kept binDir members)).problems = []
  · rw [if_pos hnone, if_pos (Checked.fields_eq_nil.mpr hnone)]
    rfl
  · rw [if_neg hnone, if_neg (mt Checked.fields_eq_nil.mp hnone)]
    rfl

theorem ofSection_of_unresolved {fault : Fault} (h : resolvedBinDir? d members = .error fault) :
    ofSection d php js members = .error fault := by
  rw [ofSection_eq, h]
  rfl

/-- A path that cannot be resolved is not taken for a problem with the settings. -/
theorem not_alike_of_isOfPath {fault : Fault} {problems : List Problem}
    (h : fault.isOfPath = true) :
    ¬ fault.Alike (.invalidSettings problems) ∧
      ¬ Fault.Alike (.invalidSettings problems) fault := by
  cases fault with
  | unencodable _ => exact ⟨nofun, nofun⟩
  | notAPath _ => exact ⟨nofun, nofun⟩
  | nulInPath => exact ⟨nofun, nofun⟩
  | _ => cases h

/-- If one directory of the tools can be resolved and the other one cannot, loading does not come to
the same. -/
theorem not_sameLoad_of_unresolved {binDir : Option Path} {fault : Fault}
    (h : resolvedBinDir? d members = .ok binDir) (hfault : fault.isOfPath = true) :
    ¬ SameLoad (ofSection d php js members) (.error fault) ∧
      ¬ SameLoad (.error fault) (ofSection d php js members) := by
  rw [ofSection_of_checked h]
  split
  · exact ⟨nofun, nofun⟩
  · refine ⟨?_, ?_⟩
    · rintro (_ | halike)
      exact (not_alike_of_isOfPath hfault).2 halike
    · rintro (_ | halike)
      exact (not_alike_of_isOfPath hfault).1 halike

theorem sameLoad_iff_of_resolved {binDir binDir' : Option Path}
    (hpadded : ∀ name, Option.Rel Padded (get? name members) (get? name members'))
    (h : resolvedBinDir? d members = .ok binDir) (h' : resolvedBinDir? d members' = .ok binDir') :
    SameLoad (ofSection d php js members) (ofSection d php js members') ↔
      WordsSpared members members' ∧
        ((check d (kept binDir members)).fields ≠ [] ∨
          binDirIn d members' = binDirIn d members) := by
  obtain ⟨hfields, hvalue⟩ := check_kept_padded hpadded h h'
  rw [ofSection_of_checked h, ofSection_of_checked h', binDirIn_eq h, binDirIn_eq h']
  constructor
  · intro hsame
    split at hsame
    · next hnone =>
      split at hsame
      · next hnone' =>
        have hbinDir := congrArg Settings.binDir hsame.eq_of_ok
        exact ⟨hfields.mp (hnone'.trans hnone.symm), .inr (congrArg Except.ok hbinDir)⟩
      · cases hsame
    · next hsome =>
      split at hsame
      · cases hsame
      · obtain _ | halike := hsame
        exact ⟨hfields.mp halike, .inl hsome⟩
  · rintro ⟨hwords, hother⟩
    rw [hfields.mpr hwords]
    split
    · next hnone =>
      have hbinDir := Except.ok.inj (hother.resolve_left fun hne => hne hnone)
      rw [withPaths_eq (hvalue hwords) hbinDir]
      exact .settings _
    · exact .fault (hfields.mpr hwords)

theorem binDirIn_of_unresolved {fault : Fault} (h : resolvedBinDir? d members = .error fault) :
    binDirIn d members = .error fault := by
  rw [binDirIn, h]
  rfl

theorem spared_iff_of_unresolved {fault fault' : Fault}
    (h : resolvedBinDir? d members = .error fault)
    (h' : resolvedBinDir? d members' = .error fault') :
    Spared d members members' ↔ fault.Alike fault' := by
  constructor
  · rintro (⟨h₁, h₁', halike⟩ | ⟨h₁, -⟩ | ⟨h₁, -⟩)
    · cases h.symm.trans h₁
      cases h'.symm.trans h₁'
      exact halike
    · cases h.symm.trans h₁
    · cases (binDirIn_of_unresolved h).symm.trans h₁
  · exact .unresolved h h'

theorem spared_iff_of_resolved {binDir binDir' : Option Path}
    (h : resolvedBinDir? d members = .ok binDir) (h' : resolvedBinDir? d members' = .ok binDir') :
    Spared d members members' ↔ WordsSpared members members' ∧
      ((check d (kept binDir members)).fields ≠ [] ∨ binDirIn d members' = binDirIn d members) := by
  constructor
  · rintro (⟨h₁, -⟩ | ⟨h₁, -, hwords, hrefused⟩ | ⟨h₁, h₁', hwords⟩)
    · cases h.symm.trans h₁
    · cases h.symm.trans h₁
      exact ⟨hwords, .inl hrefused⟩
    · exact ⟨hwords, .inr (h₁'.trans h₁.symm)⟩
  · rintro ⟨hwords, hrefused | hbinDir⟩
    · exact .refused h h' hwords hrefused
    · have hsame := binDirIn_eq h
      exact .spared hsame (hbinDir.trans hsame) hwords

/-- Spaces that decide whether the directory of the tools can be resolved are not spared. -/
theorem not_spared_of_unresolved {binDir : Option Path} {fault : Fault}
    (h : resolvedBinDir? d members = .ok binDir)
    (h' : resolvedBinDir? d members' = .error fault) :
    ¬ Spared d members members' ∧ ¬ Spared d members' members := by
  have hunresolved := binDirIn_of_unresolved h'
  constructor
  · rintro (⟨h₁, -⟩ | ⟨-, h₁', -⟩ | ⟨-, h₁', -⟩)
    · cases h.symm.trans h₁
    · cases h'.symm.trans h₁'
    · cases hunresolved.symm.trans h₁'
  · rintro (⟨-, h₁', -⟩ | ⟨h₁, -⟩ | ⟨h₁, -⟩)
    · cases h.symm.trans h₁'
    · cases h'.symm.trans h₁
    · cases hunresolved.symm.trans h₁

/-- Spaces around values make no difference to the settings of a section, to its problems or to the
fault of its directory of the tools, where what has to be given exactly is spared, and nowhere
else. -/
theorem sameLoad_ofSection_iff
    (hpadded : ∀ name, Option.Rel Padded (get? name members) (get? name members')) :
    SameLoad (ofSection d php js members) (ofSection d php js members') ↔
      Spared d members members' := by
  cases h : resolvedBinDir? d members with
  | error fault =>
    rw [ofSection_of_unresolved h]
    cases h' : resolvedBinDir? d members' with
    | error fault' =>
      rw [ofSection_of_unresolved h', spared_iff_of_unresolved h h']
      constructor
      · rintro (_ | halike)
        exact halike
      · exact .fault
    | ok binDir' =>
      have hfault := isOfPath_of_resolvedBinDir? h
      exact iff_of_false (not_sameLoad_of_unresolved h' hfault).2 (not_spared_of_unresolved h' h).2
  | ok binDir =>
    cases h' : resolvedBinDir? d members' with
    | error fault' =>
      have hfault := isOfPath_of_resolvedBinDir? h'
      rw [ofSection_of_unresolved h']
      exact iff_of_false (not_sameLoad_of_unresolved h hfault).1 (not_spared_of_unresolved h h').1
    | ok binDir' => rw [sameLoad_iff_of_resolved hpadded h h', spared_iff_of_resolved h h']

/-! ### Loading -/

theorem padded_or {u u' v v' : Option Json} (hu : Option.Rel Padded u u')
    (hv : Option.Rel Padded v v') : Option.Rel Padded (u.or v) (u'.or v') := by
  rcases hu with (hvalue | _)
  · exact .some hvalue
  · exact hv

theorem padded_refl (v : Option Json) : Option.Rel Padded v v := by
  cases v with
  | none => exact .none
  | some v => exact .some (.same v)

theorem padded_get?_membersIn {w w' : Workspace} {directory : Path} (overrides : Table Json)
    (hlimit : get? "CODE_QUALITY_TIMEOUT" w'.environment =
      get? "CODE_QUALITY_TIMEOUT" w.environment)
    (h : List.Forall₂ (Entries Padded) (spelledIn w d directory) (spelledIn w' d directory))
    (name : Text) :
    Option.Rel Padded (get? name (membersIn w d directory overrides))
      (get? name (membersIn w' d directory overrides)) := by
  have hnormal : List.Forall₂ (Entries Padded) ((spelledIn w d directory).map normalMember)
      ((spelledIn w' d directory).map normalMember) := by
    rw [List.forall₂_map_left_iff, List.forall₂_map_right_iff]
    exact h.imp fun m m' hm => ⟨congrArg normalName hm.1, hm.2⟩
  have hsection := Table.get?_forall₂ name (Table.forall₂_ofList hnormal)
  rw [← sectionIn_eq, ← sectionIn_eq, get?_sectionIn, get?_sectionIn] at hsection
  rw [get?_membersIn, get?_membersIn, limitIn_congr hlimit]
  exact padded_or (padded_refl _) (padded_or hsection (padded_refl _))

/-- The names of the settings that have to be given exactly, or may have to. -/
def exactNames : List Text :=
  ["bin_dir", "biome-reporter", "biome_reporter", "stats", "silent", "cache", "strict", "timeout"]

/-- Without spaces around the values that have to be given exactly there is no difference. -/
theorem spared_of_exactNames (h : ∀ name ∈ exactNames, get? name members' = get? name members) :
    Spared d members members' := by
  have hbinDir : get? "bin_dir" members = get? "bin_dir" members' :=
    (h _ List.mem_cons_self).symm
  have hspares {α : Type} {names : List Text} (rule : Rule α) (exact : Json → Prop)
      (hnames : ∀ name ∈ names, name ∈ exactNames) :
      Spares names rule exact members members' := fun m hm _ _ =>
    (given?_congr fun name hname => h name (hnames name hname)).trans hm
  have hwords : WordsSpared members members' :=
    ⟨hspares _ _ (by decide +kernel), hspares _ _ (by decide +kernel),
      hspares _ _ (by decide +kernel), hspares _ _ (by decide +kernel),
      hspares _ _ (by decide +kernel), hspares _ _ (by decide +kernel)⟩
  have hsame := resolvedBinDir?_congr d hbinDir
  cases hresolved : resolvedBinDir? d members with
  | error fault =>
    exact .unresolved hresolved (hsame ▸ hresolved) (by cases fault <;> trivial)
  | ok binDir =>
    have hsetting : setting ["bin_dir"] none (nullable path) members' =
        setting ["bin_dir"] none (nullable path) members :=
      setting_congr fun name hname => List.mem_singleton.mp hname ▸ hbinDir.symm
    have hdirectory : binDirIn d members' = binDirIn d members := by
      rw [binDirIn, binDirIn, hsame, hsetting]
    exact .spared (binDirIn_eq hresolved) (hdirectory.trans (binDirIn_eq hresolved)) hwords

/-- Spaces around the values of a section leave the outcome of loading as it is exactly where what
has to be given exactly is spared: accepted truth values, the accepted word for a reporter, an
accepted time limit with an underscore, and the directory of the tools as it is resolved. Around all
other values they make no difference, and where a root cannot be resolved no section is seen. -/
theorem load_padded {σ σ' : Session} {phpRoot jsRoot : Option Text} {overrides : Table Json}
    (hdirectory : σ'.directory = σ.directory)
    (hlimit : get? "CODE_QUALITY_TIMEOUT" σ'.workspace.environment =
      get? "CODE_QUALITY_TIMEOUT" σ.workspace.environment)
    (hpadded : ∀ directory, rootFrom σ.directory phpRoot = .ok directory →
      List.Forall₂ (Entries Padded) (spelledIn σ.workspace σ.directory directory)
        (spelledIn σ'.workspace σ.directory directory)) :
    (∀ php js, rootFrom σ.directory phpRoot = .ok php → rootFrom σ.directory jsRoot = .ok js →
      (SameLoad ((load phpRoot jsRoot overrides).given σ)
          ((load phpRoot jsRoot overrides).given σ') ↔
        Spared σ.directory (membersIn σ.workspace σ.directory php overrides)
          (membersIn σ'.workspace σ.directory php overrides)) ∧
      ((∀ name ∈ exactNames, lastNamed? name (spelledIn σ'.workspace σ.directory php) =
          lastNamed? name (spelledIn σ.workspace σ.directory php)) →
        SameLoad ((load phpRoot jsRoot overrides).given σ)
          ((load phpRoot jsRoot overrides).given σ'))) ∧
    ((∀ php js, rootFrom σ.directory phpRoot = .ok php → rootFrom σ.directory jsRoot ≠ .ok js) →
      (load phpRoot jsRoot overrides).given σ' = (load phpRoot jsRoot overrides).given σ) := by
  rw [(hasEffect_load _ _ _).given_eq, (hasEffect_load _ _ _).given_eq, hdirectory]
  dsimp only
  refine ⟨fun php js hphp hjs => ?_, fun hroots => ?_⟩
  · have hmembers := padded_get?_membersIn overrides hlimit (hpadded php hphp)
    rw [loadIn_of_roots hphp hjs, loadIn_of_roots hphp hjs, sameLoad_ofSection_iff hmembers]
    refine ⟨Iff.rfl, fun hexact => spared_of_exactNames fun name hname => ?_⟩
    rw [get?_membersIn, get?_membersIn, hexact name hname, limitIn_congr hlimit]
  · rcases loadIn_cases σ.directory phpRoot jsRoot with ⟨fault, hfault⟩ | ⟨php, js, hphp, hjs, -⟩
    · rw [hfault, hfault]
    · exact absurd hjs (hroots php js hphp)

/-- The text that a value is. -/
def text? : Json → Option Text
  | .string s => some s
  | _ => none

theorem eq_of_text? {v : Json} {s : Text} (h : text? v = some s) : v = .string s := by
  cases v <;> cases h
  rfl

/-- A project with a word for the reporter and a configuration of a tool. -/
def worded (reporter config : String) : Session :=
  composerSession ("\"biome-reporter\":\"" ++ reporter ++ "\",\"phpstan-config\":\"" ++ config ++
    "\"") []

/-- The values that the project gives. -/
def wordedValues (reporter config : String) : Table Json :=
  [(Text.ofString "biome-reporter", Text.ofString reporter),
    (Text.ofString "phpstan-config", Text.ofString config)].map fun m => (m.1, .string m.2)

theorem spaced_around (before s after : Text) (hbefore : ∀ c ∈ before, c = .scalar ' ')
    (hafter : ∀ c ∈ after, c = .scalar ' ') : Spaced s (before ++ s ++ after) :=
  ⟨before, after, rfl, hbefore, hafter⟩

theorem directory_worded (reporter config : String) :
    (worded reporter config).directory = Snapshot.home := rfl

theorem environment_worded (reporter config : String) :
    (worded reporter config).workspace.environment = [] := rfl

theorem spelledIn_worded {reporter config : String}
    (h : (spelledIn (worded reporter config).workspace Snapshot.home Snapshot.home).map
        (fun m => (m.1, text? m.2)) =
          [(Text.ofString "biome-reporter", some (Text.ofString reporter)),
            (Text.ofString "phpstan-config", some (Text.ofString config))]) :
    spelledIn (worded reporter config).workspace Snapshot.home Snapshot.home =
      wordedValues reporter config :=
  eq_of_values (fun _ _ => eq_of_text?) h

theorem forall₂_worded {reporter reporter' config config' : String}
    (hreporter : Spaced (Text.ofString reporter) (Text.ofString reporter'))
    (hconfig : Spaced (Text.ofString config) (Text.ofString config')) :
    List.Forall₂ (Entries Padded) (wordedValues reporter config)
      (wordedValues reporter' config') :=
  .cons ⟨rfl, .spaced hreporter⟩ (.cons ⟨rfl, .spaced hconfig⟩ .nil)

theorem lastNamed?_worded {reporter config config' : String}
    (hname : normalName "phpstan-config" ≠ name) :
    lastNamed? name (wordedValues reporter config') =
      lastNamed? name (wordedValues reporter config) := by
  simp only [lastNamed?, wordedValues, List.map_cons, List.map_nil, List.filter_cons,
    List.filter_nil, hname, decide_false, Bool.false_eq_true, if_false]

theorem isOk_worded : ((load none none []).given (worded "json" "a.neon")).isOk = true ∧
    ((load none none []).given (worded " json " " a.neon")).isOk = false := by
  decide +kernel

theorem SameLoad.isOk_eq {loaded loaded' : Except Fault Settings} (h : SameLoad loaded loaded') :
    loaded'.isOk = loaded.isOk := by
  cases h <;> rfl

/-- Spaces around the configuration make no difference; around the reporter they do. -/
theorem load_padded_worded :
    SameLoad ((load none none []).given (worded "json" "a.neon"))
        ((load none none []).given (worded "json" " a.neon")) ∧
      ¬ Spared Snapshot.home
        (membersIn (worded "json" "a.neon").workspace Snapshot.home Snapshot.home [])
        (membersIn (worded " json " " a.neon").workspace Snapshot.home Snapshot.home []) := by
  have hplain := @spelledIn_worded "json" "a.neon" (by decide +kernel)
  have hconfig := @spelledIn_worded "json" " a.neon" (by decide +kernel)
  have hboth := @spelledIn_worded " json " " a.neon" (by decide +kernel)
  have hspaced : Spaced (Text.ofString "a.neon") (Text.ofString " a.neon") :=
    spaced_around " " "a.neon" [] (by decide) nofun
  constructor
  · have hload := @load_padded (worded "json" "a.neon") (worded "json" " a.neon") none none []
      ((directory_worded _ _).trans (directory_worded _ _).symm)
      (by rw [environment_worded, environment_worded]) fun directory hdirectory => by
        rw [← Except.ok.inj hdirectory, directory_worded, hplain, hconfig]
        exact forall₂_worded (spaced_around [] "json" [] nofun nofun) hspaced
    refine (hload.1 Snapshot.home Snapshot.home rfl rfl).2 fun name hname => ?_
    have hother : ∀ name ∈ exactNames, normalName "phpstan-config" ≠ name := by decide +kernel
    rw [directory_worded, hplain, hconfig, lastNamed?_worded (hother name hname)]
  · have hload := @load_padded (worded "json" "a.neon") (worded " json " " a.neon") none none []
      ((directory_worded _ _).trans (directory_worded _ _).symm)
      (by rw [environment_worded, environment_worded]) fun directory hdirectory => by
        rw [← Except.ok.inj hdirectory, directory_worded, hplain, hboth]
        exact forall₂_worded (spaced_around " " "json" " " (by decide) (by decide)) hspaced
    intro hspared
    have hsame := ((hload.1 Snapshot.home Snapshot.home rfl rfl).1.mpr hspared).isOk_eq
    rw [isOk_worded.1, isOk_worded.2] at hsame
    cases hsame

end Settings

end LintReport
