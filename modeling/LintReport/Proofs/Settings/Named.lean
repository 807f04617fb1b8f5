import LintReport.CommandLine.Options
import LintReport.Proofs.Settings.Diagnosed
import LintReport.Proofs.Text.LetterCase

/-!
Settings by their names. What stands under a name comes from the layer that outranks the others, and
within the section it is the last value whose name has that normal form. The checks look at the
names of the settings and at nothing else, so neither the spelling of a name nor its place among the
others counts, nor what else there is.
-/
namespace LintReport

open Table (get?)

variable {w : Workspace} {d directory php js : Path} {name spelling : Text}
  {members members' overrides spelled spelled' : Table Json} {s : Settings}

namespace Settings

/-! ### Names -/

/-- The names of the settings for single tools. -/
def toolNames : List Text :=
  Tool.all.flatMap fun t => [t.name, switchName t, (rulesName t).1, (rulesName t).2]

/-- The names of all other settings. -/
def commonNames : List Text :=
  ["bin_dir", "php-dir", "php_dir", "js-dir", "js_dir", "stylelint-files", "stylelint_files", "bun",
   "bun_bin", "node", "node_bin", "biome-reporter", "biome_reporter", "stats", "last", "silent",
   "cache", "strict", "verbosity", "timeout"]

/-- The names under which settings are given. The roots are not given by name. -/
def settingNames : List Text := commonNames ++ toolNames

/-- A spelling of a name: blanks around it, and capitals in it. -/
def Spells (spelling name : Text) : Prop :=
  ∃ before core after : Text, spelling = before ++ core ++ after ∧
    (∀ c ∈ before, c.isBlank = true) ∧ (∀ c ∈ after, c.isBlank = true) ∧ core.asciiLower = name

theorem settingNames_plain : ∀ name ∈ settingNames,
    (∀ c ∈ name, c.value < 0x80) ∧ name.trimBlanks = name := by
  decide +kernel

/-- However a name is spelled, it is the normal form of the spelling. -/
theorem Spells.normalName_eq (h : Spells spelling name) (hname : name ∈ settingNames) :
    normalName spelling = name := by
  obtain ⟨before, core, after, rfl, hbefore, hafter, rfl⟩ := h
  obtain ⟨hascii, htrim⟩ := settingNames_plain _ hname
  have hcore : ∀ c ∈ core, c.value < 0x80 := fun c hc =>
    CodePoint.value_lt_of_asciiLower (hascii _ (List.mem_map_of_mem hc))
  calc normalName (before ++ core ++ after)
    _ = core.trimBlanks.lower := by rw [normalName, Text.trimBlanks, Text.trim_append hbefore hafter,
        Text.trimBlanks]
    _ = core.asciiLower.trimBlanks := by rw [← Text.trimBlanks_lower, Text.lower_of_ascii hcore]
    _ = core.asciiLower := htrim

/-- The last value in a section whose name has a normal form. -/
def lastNamed? (name : Text) (spelled : Table Json) : Option Json :=
  ((spelled.filter fun m => normalName m.1 = name).getLast?).map Prod.snd

theorem get?_sectionIn (w : Workspace) (d directory : Path) (name : Text) :
    get? name (sectionIn w d directory) = lastNamed? name (spelledIn w d directory) := by
  rw [sectionIn_eq, Table.get?_ofList, List.filter_map, List.getLast?_map, Option.map_map]
  rfl

/-- Two sections have the same last value under every name of a setting. -/
def SameNamed (spelled spelled' : Table Json) : Prop :=
  ∀ name ∈ settingNames, lastNamed? name spelled' = lastNamed? name spelled

/-- The members of a section that give settings, under their normal names. -/
def givenMembers (spelled : Table Json) : Table Json :=
  (spelled.map normalMember).filter fun m => settingNames.contains m.1

/-- The settings of one section are those of another one in another order and under names with
another spelling. No two of them have one normal name. -/
structure Respelled (spelled spelled' : Table Json) : Prop where
  perm : (givenMembers spelled).Perm (givenMembers spelled')
  distinct : ((givenMembers spelled).map Prod.fst).Nodup

theorem lastNamed?_eq (hname : name ∈ settingNames)
    (hdistinct : ((givenMembers spelled).map Prod.fst).Nodup) :
    lastNamed? name spelled = get? name (givenMembers spelled) := by
  have hlast : lastNamed? name spelled = get? name (Table.ofList (spelled.map normalMember)) := by
    rw [Table.get?_ofList, List.filter_map, List.getLast?_map, Option.map_map]
    rfl
  have honly : Table.only settingNames (spelled.map normalMember) = givenMembers spelled := rfl
  rw [hlast, ← Table.get?_only hname, Table.only_ofList, honly, Table.ofList_eq hdistinct]

/-- Neither the order of the members nor the spelling of their names counts, and other members do
not count at all. -/
theorem Respelled.sameNamed (h : Respelled spelled spelled') : SameNamed spelled spelled' := by
  intro name hname
  have hdistinct : ((givenMembers spelled').map Prod.fst).Nodup :=
    (h.perm.map Prod.fst).nodup_iff.mp h.distinct
  rw [lastNamed?_eq hname hdistinct, lastNamed?_eq hname h.distinct]
  refine Option.ext fun v => ⟨fun hv => ?_, fun hv => ?_⟩
  · exact Table.get?_of_mem h.distinct (h.perm.mem_iff.mpr (Table.mem_of_get? hv))
  · exact Table.get?_of_mem hdistinct (h.perm.mem_iff.mp (Table.mem_of_get? hv))

/-! ### Layers -/

/-- What an override gives outranks what stood there before. -/
theorem get?_overridden (name : Text) (overrides members : Table Json) :
    get? name (overridden overrides members) =
      (get? name (overridden overrides [])).or (get? name members) := by
  induction overrides generalizing members with
  | nil => rfl
  | cons m overrides ih =>
    obtain ⟨key, v⟩ := m
    rw [overridden_cons, overridden_cons, ih, ih (if v.isNull then [] else _), Option.or_assoc]
    congr 1
    split
    · rfl
    · rw [Table.get?_insert, Table.get?_insert]
      split <;> rfl

theorem get?_overridden_of_not_mem (h : name ∉ overrides.map Prod.fst) :
    get? name (overridden overrides []) = none := by
  induction overrides with
  | nil => rfl
  | cons m overrides ih =>
    obtain ⟨key, v⟩ := m
    obtain ⟨hkey, hrest⟩ := not_or.mp (mt List.mem_cons.mpr h)
    rw [overridden_cons, get?_overridden, ih hrest, Option.none_or]
    split
    · rfl
    · exact (Table.get?_insert ..).trans (if_neg (Ne.symm hkey))

theorem limitIn_congr {environment environment' : Table Text}
    (h : get? "CODE_QUALITY_TIMEOUT" environment' = get? "CODE_QUALITY_TIMEOUT" environment) :
    limitIn environment' = limitIn environment := by
  rw [limitIn, limitIn, h]

/-- A value comes from the command line, else from the section, and a time limit from the
environment in the end. -/
theorem get?_membersIn (w : Workspace) (d directory : Path) (overrides : Table Json) (name : Text) :
    get? name (membersIn w d directory overrides) =
      (get? name (overridden overrides [])).or ((lastNamed? name (spelledIn w d directory)).or
        (if name = "timeout" then limitIn w.environment else none)) := by
  rw [membersIn, get?_overridden, get?_withTimeout, get?_sectionIn, get?_sectionIn]
  congr 1
  by_cases hname : name = "timeout"
  · rw [if_pos hname, if_pos hname, hname]
  · rw [if_neg hname, if_neg hname, Option.or_none]

/-! ### Checks -/

/-- The checks look at the names of the settings and of the roots only. -/
theorem check_named (d : Path)
    (h : ∀ name ∈ rootNames ++ settingNames, get? name members = get? name members') :
    check d members = check d members' := by
  have hsetting {α : Type} {names : List Text} (default : α) (rule : Rule α)
      (hnames : ∀ name ∈ names, name ∈ rootNames ++ settingNames) :
      setting names default rule members = setting names default rule members' :=
    setting_congr fun name hname => h name (hnames name hname)
  have htool (t : Tool) {name : Text}
      (hname : name ∈ [t.name, switchName t, (rulesName t).1, (rulesName t).2]) :
      name ∈ rootNames ++ settingNames :=
    List.mem_append_right _ (List.mem_append_right _ (List.mem_flatMap.mpr ⟨t, t.mem_all, hname⟩))
  have hswitch (t : Tool) : setting [t.name, switchName t] true switch members =
      setting [t.name, switchName t] true switch members' :=
    hsetting _ _ fun name hname => htool t (List.mem_append_left [_, _] hname)
  have hrules (t : Tool) : setting [(rulesName t).1, (rulesName t).2] t.defaultRules text members =
      setting [(rulesName t).1, (rulesName t).2] t.defaultRules text members' :=
    hsetting _ _ fun name hname => htool t (List.mem_append_right [_, _] hname)
  simp only [check, textSetting, hswitch, hrules]
  simp (disch := decide +kernel) only [hsetting]

/-- The settings of a section depend on what stands under the names of settings. -/
theorem ofSection_named (d php js : Path)
    (h : ∀ name ∈ settingNames, get? name members = get? name members') :
    ofSection d php js members = ofSection d php js members' := by
  rw [ofSection_eq, ofSection_eq, resolvedBinDir?_congr d (h "bin_dir" List.mem_cons_self)]
  refine congrArg _ (funext fun binDir => ?_)
  have hkept : ∀ name ∈ rootNames ++ settingNames,
      get? name (without (resolvedNames binDir) members) =
        get? name (without (resolvedNames binDir) members') := by
    intro name hname
    rw [get?_without, get?_without]
    split
    · rfl
    · next hkept =>
      refine h name ((List.mem_append.mp hname).resolve_left fun hroot => hkept ?_)
      exact List.mem_append_left _ hroot
  rw [ofTable, ofTable, check_named d hkept]

/-- A section has settings if its directory of tools can be resolved and nothing else in it is a
problem. They are the checked values, seen with the paths that have been resolved. -/
theorem ofSection_eq_ok : ofSection d php js members = .ok s ↔ ∃ binDir,
    resolvedBinDir? d members = .ok binDir ∧
      (check d (without (resolvedNames binDir) members)).problems = [] ∧
      s = withPaths php js binDir (check d (without (resolvedNames binDir) members)).value := by
  rw [ofSection_eq]
  cases resolvedBinDir? d members with
  | error fault =>
    refine iff_of_false (fun h => by cases h) ?_
    rintro ⟨binDir, heq, -⟩
    cases heq
  | ok binDir =>
    change Except.map _ (ofTable d _) = _ ↔ _
    rw [ofTable, Checked.toExcept]
    split
    · next hproblems =>
      refine ⟨fun h => ⟨binDir, rfl, hproblems, (Except.ok.inj h).symm⟩, ?_⟩
      rintro ⟨binDir', heq, -, rfl⟩
      cases heq
      rfl
    · next hproblems =>
      refine iff_of_false (fun h => by cases h) ?_
      rintro ⟨binDir', heq, hnone, -⟩
      cases heq
      exact hproblems hnone

/-! ### Switches -/

theorem given?_pair (name name' : Text) (members : Table Json) :
    (given? [name, name'] members).map Prod.snd = (get? name members).or (get? name' members) := by
  rw [given?, List.findSome?_cons]
  cases get? name members with
  | some v => rfl
  | none =>
    rw [Option.map_none, List.findSome?_cons]
    cases get? name' members <;> rfl

/-- A switch is on unless the value that is given for it is false. -/
theorem value_switch (names : List Text) (members : Table Json) :
    (setting names true switch members).value = true ↔
      (given? names members).map Prod.snd ≠ some (.bool false) := by
  rw [setting]
  cases given? names members with
  | none => exact iff_of_true rfl (by simp)
  | some m =>
    obtain ⟨name, v⟩ := m
    cases v with
    | bool b => cases b <;> simp [switch]
    | _ => exact iff_of_true rfl (by simp)

/-- A tool is switched on unless the first of its two names that is given has the value false. -/
theorem enabled_iff (h : ofSection d php js members = .ok s) (t : Tool) :
    s.enabled t = true ↔
      (get? t.name members).or (get? (switchName t) members) ≠ some (.bool false) := by
  obtain ⟨binDir, -, -, rfl⟩ := ofSection_eq_ok.mp h
  have hkept : ∀ name ∈ [t.name, switchName t],
      get? name (without (resolvedNames binDir) members) = get? name members := by
    have hnames : ∀ name ∈ [t.name, switchName t], name ∉ resolvedNames binDir := by
      cases binDir with
      | none => cases t <;> decide +kernel
      | some p =>
        change ∀ name ∈ [t.name, switchName t], name ∉ rootNames ++ [Text.ofString "bin_dir"]
        cases t <;> decide +kernel
    intro name hname
    rw [get?_without, if_neg (hnames name hname)]
  change (setting [t.name, switchName t] true switch (without _ members)).value = true ↔ _
  rw [value_switch, given?_congr hkept, given?_pair]

/-! ### Sections -/

/-- A section counts for what it gives under the names of settings, however they are spelled.
Sections that give the same lead to the same settings, to the same problems or to the same fault;
capitals, blanks, order and unknown names change nothing as long as no two names have one normal
form. Under the options of a command line a tool is switched on unless the value under its name, or
under its other name if that one is missing, is false. -/
theorem load_sameNamed :
    (∀ (σ σ' : Session) (phpRoot jsRoot : Option Text) (overrides : Table Json),
      σ'.directory = σ.directory →
      get? "CODE_QUALITY_TIMEOUT" σ'.workspace.environment =
        get? "CODE_QUALITY_TIMEOUT" σ.workspace.environment →
      (∀ directory, rootFrom σ.directory phpRoot = .ok directory →
        SameNamed (spelledIn σ.workspace σ.directory directory)
          (spelledIn σ'.workspace σ.directory directory)) →
      (load phpRoot jsRoot overrides).given σ' = (load phpRoot jsRoot overrides).given σ) ∧
    (∀ spelled spelled' : Table Json, Respelled spelled spelled' → SameNamed spelled spelled') ∧
    (∀ name ∈ settingNames, ∀ spelling, Spells spelling name → normalName spelling = name) ∧
    ∀ (σ : Session) (phpRoot jsRoot : Option Text) (o : CommandLine.Options) (s : Settings),
      (load phpRoot jsRoot o.overrides).given σ = .ok s → ∀ t : Tool,
        (s.enabled t = true ↔
          (lastNamed? t.name (spelledIn σ.workspace σ.directory s.phpRoot)).or
            (lastNamed? (switchName t) (spelledIn σ.workspace σ.directory s.phpRoot)) ≠
          some (.bool false)) := by
  refine ⟨?_, fun _ _ h => h.sameNamed, fun _ hname _ h => h.normalName_eq hname, ?_⟩
  · intro σ σ' phpRoot jsRoot overrides hdirectory hlimit hsame
    rw [(hasEffect_load _ _ _).given_eq, (hasEffect_load _ _ _).given_eq, hdirectory]
    dsimp only
    rcases loadIn_cases σ.directory phpRoot jsRoot with ⟨fault, hfault⟩ | ⟨php, js, hphp, -, hload⟩
    · rw [hfault, hfault]
    · have hmembers : ∀ name ∈ settingNames,
          get? name (membersIn σ'.workspace σ.directory php overrides) =
            get? name (membersIn σ.workspace σ.directory php overrides) := by
        intro name hname
        rw [get?_membersIn, get?_membersIn, hsame php hphp name hname, limitIn_congr hlimit]
      rw [hload, hload, ofSection_named σ.directory php js hmembers]
  · intro σ phpRoot jsRoot o s hs t
    rw [(hasEffect_load _ _ _).given_eq] at hs
    obtain ⟨hphp, -⟩ := roots_of_loadIn hs
    rcases loadIn_cases σ.directory phpRoot jsRoot with ⟨fault, hfault⟩ | ⟨php, js, hroot, -, hload⟩
    · rw [hfault] at hs
      cases hs
    · cases hphp.symm.trans hroot
      rw [hload] at hs
      have hget {name : Text} (hname : name ∈ [t.name, switchName t]) :
          get? name (membersIn σ.workspace σ.directory s.phpRoot o.overrides) =
            lastNamed? name (spelledIn σ.workspace σ.directory s.phpRoot) := by
        have hnames : ∀ name ∈ [t.name, switchName t],
            name ∉ [Text.ofString "strict", Text.ofString "verbosity", Text.ofString "bin_dir"] ∧
              name ≠ Text.ofString "timeout" := by
          cases t <;> decide +kernel
        obtain ⟨hoverride, hlimit⟩ := hnames name hname
        rw [get?_membersIn, get?_overridden_of_not_mem hoverride, if_neg hlimit, Option.none_or,
          Option.or_none]
      rw [enabled_iff hs, hget (by simp), hget (by simp)]

/-- A table whose values can be read is the table of what is read. -/
theorem eq_of_values {α : Type} {read? : Json → Option α} {make : α → Json}
    (hread : ∀ v a, read? v = some a → v = make a) {values : Table α}
    (h : members.map (fun m => (m.1, read? m.2)) = values.map fun m => (m.1, some m.2)) :
    members = values.map fun m => (m.1, make m.2) := by
  induction members generalizing values with
  | nil =>
    rw [List.map_eq_nil_iff.mp h.symm]
    rfl
  | cons m members ih =>
    cases values with
    | nil => cases h
    | cons value values =>
      obtain ⟨hfirst, hrest⟩ := List.cons.inj h
      obtain ⟨hname, hvalue⟩ := Prod.mk.inj hfirst
      rw [List.map_cons, ih hrest, ← hname, ← hread _ _ hvalue]

/-- The truth value that a value is. -/
def flag? : Json → Option Bool
  | .bool b => some b
  | _ => none

theorem eq_of_flag? {v : Json} {b : Bool} (h : flag? v = some b) : v = .bool b := by
  cases v <;> cases h
  rfl

/-- A project that switches a tool off. -/
def switchedOff : Session := composerSession "\" PHPStan \":false,\"STATS\":true" []

/-- A project that does so in other words. -/
def switchedOffAgain : Session :=
  composerSession "\"stats\":true,\"colors\":false,\"phpstan\":false" []

/-- The tool is switched off in both. -/
theorem load_sameNamed_switchedOff :
    (load none none ({} : CommandLine.Options).overrides).given switchedOffAgain =
      (load none none ({} : CommandLine.Options).overrides).given switchedOff ∧
    ∃ s, (load none none ({} : CommandLine.Options).overrides).given switchedOff = .ok s ∧
      s.enabled .phpStan = false := by
  obtain ⟨hsame, hrespelled, hspells, hswitch⟩ := load_sameNamed
  have hspelled : Spells " PHPStan " "phpstan" :=
    ⟨" ", "PHPStan", " ", by decide, by decide, by decide, by decide⟩
  have hname := hspells "phpstan" (by decide +kernel) " PHPStan " hspelled
  have hgiven : givenMembers (spelledIn switchedOff.workspace Snapshot.home Snapshot.home) =
      [(Text.ofString "phpstan", false), (Text.ofString "stats", true)].map
        fun m => (m.1, .bool m.2) := eq_of_values (fun _ _ => eq_of_flag?) (by decide +kernel)
  have hgiven' : givenMembers (spelledIn switchedOffAgain.workspace Snapshot.home Snapshot.home) =
      [(Text.ofString "stats", true), (Text.ofString "phpstan", false)].map
        fun m => (m.1, .bool m.2) := eq_of_values (fun _ _ => eq_of_flag?) (by decide +kernel)
  have hsections := hrespelled (spelledIn switchedOff.workspace Snapshot.home Snapshot.home)
    (spelledIn switchedOffAgain.workspace Snapshot.home Snapshot.home) {
      perm := by
        rw [hgiven, hgiven']
        exact (List.Perm.swap _ _ _).map _
      distinct := by
        rw [hgiven, List.map_map]
        decide }
  have hload := hsame switchedOff switchedOffAgain none none ({} : CommandLine.Options).overrides
    rfl rfl fun directory hdirectory => by
      cases hdirectory
      exact hsections
  have hok : ((load none none ({} : CommandLine.Options).overrides).given switchedOff).isOk =
      true := by decide +kernel
  refine ⟨hload, ?_⟩
  cases hs : (load none none ({} : CommandLine.Options).overrides).given switchedOff with
  | error fault =>
    rw [hs] at hok
    cases hok
  | ok s =>
    have hphp : s.phpRoot = Snapshot.home := by
      rw [(hasEffect_load _ _ _).given_eq] at hs
      exact (Except.ok.inj (roots_of_loadIn hs).1).symm
    have henabled := hswitch switchedOff none none {} s hs .phpStan
    have hoff : lastNamed? Tool.phpStan.name
        (spelledIn switchedOff.workspace Snapshot.home Snapshot.home) = some (.bool false) := by
      rw [lastNamed?_eq (by decide +kernel) (by rw [hgiven, List.map_map]; decide), hgiven]
      rfl
    refine ⟨s, rfl, Bool.eq_false_iff.mpr fun hon => ?_⟩
    rw [hphp] at henabled
    refine henabled.mp hon ?_
    change (lastNamed? _ (spelledIn switchedOff.workspace Snapshot.home Snapshot.home)).or _ = _
    rw [hoff]
    rfl

end Settings

end LintReport
