import LintReport.Proofs.Session.Kept
import LintReport.Proofs.Settings.Loaded
import LintReport.Proofs.Settings.Roots
import LintReport.Proofs.Text.Table

/-!
Values that are outranked. The checks look values up by name and see nothing else of a table, so a
value that another source overrides is neither seen nor checked, whatever it is and however its name
is spelled. The roots are never looked up at all.
-/
namespace LintReport

open Table (get?)

variable {w w' : Workspace} {d directory : Path} {name : Text} {names : List Text}
  {members members' overrides overrides' : Table Json}

def Json.isNull : Json → Bool
  | null => true
  | _ => false

namespace Table

/-- What a table of pairs has under a name depends on the pairs with that name. -/
theorem get?_ofList_congr {α : Type} {pairs pairs' : List (Text × α)}
    (h : only [name] pairs = only [name] pairs') :
    get? name (ofList pairs) = get? name (ofList pairs') := by
  have hname : name ∈ [name] := List.mem_singleton.mpr rfl
  rw [← get?_only hname (ofList pairs), ← get?_only hname (ofList pairs'), only_ofList, only_ofList,
    h]

end Table

namespace Settings

/-! ### Settings by name -/

theorem given?_congr (h : ∀ name ∈ names, get? name members = get? name members') :
    given? names members = given? names members' := by
  induction names with
  | nil => rfl
  | cons name names ih =>
    obtain ⟨hname, hnames⟩ := List.forall_mem_cons.mp h
    have hrest := ih hnames
    unfold given? at hrest ⊢
    rw [List.findSome?_cons, List.findSome?_cons, hname, hrest]

/-- A setting depends on what stands under its names. -/
theorem setting_congr {α : Type} {default : α} {rule : Rule α}
    (h : ∀ name ∈ names, get? name members = get? name members') :
    setting names default rule members = setting names default rule members' := by
  rw [setting, setting, given?_congr h]

theorem check_congr (d : Path) (h : ∀ name, get? name members = get? name members') :
    check d members = check d members' := by
  have hsetting {α : Type} (names : List Text) (default : α) (rule : Rule α) :
      setting names default rule members = setting names default rule members' :=
    setting_congr fun name _ => h name
  simp only [check, textSetting, hsetting]

theorem get?_without (names : List Text) (members : Table Json) (name : Text) :
    get? name (without names members) = if name ∈ names then none else get? name members := by
  unfold without
  rw [Table.get?_filter fun name' => !names.contains name']
  by_cases h : name ∈ names
  · rw [if_pos h, if_neg (by simpa using h)]
  · rw [if_neg h, if_pos (by simpa using h)]

/-- The names of the roots, which no table gives. -/
def rootNames : List Text := ["php_root", "js_root"]

theorem resolvedBinDir?_congr (d : Path) (h : get? "bin_dir" members = get? "bin_dir" members') :
    resolvedBinDir? d members = resolvedBinDir? d members' := by
  rw [resolvedBinDir?, resolvedBinDir?, h]

/-- The names of the paths that are resolved before a table is checked. -/
def resolvedNames (binDir : Option Path) : List Text :=
  rootNames ++ if binDir.isSome then [Text.ofString "bin_dir"] else []

/-- The settings with the paths that have been resolved. -/
def withPaths (phpRoot jsRoot : Path) (binDir : Option Path) (s : Settings) : Settings :=
  { s with phpRoot, jsRoot, binDir := binDir.or s.binDir }

theorem ofSection_eq (d phpRoot jsRoot : Path) (members : Table Json) :
    ofSection d phpRoot jsRoot members = resolvedBinDir? d members >>= fun binDir =>
      (ofTable d (without (resolvedNames binDir) members)).map
        (withPaths phpRoot jsRoot binDir) := by
  rw [ofSection]
  refine congrArg _ (funext fun binDir => ?_)
  dsimp only
  rw [← rootNames, resolvedNames]
  generalize ofTable d (without _ members) = r
  cases r <;> rfl

/-- The settings of a section depend on what stands under the names other than those of the
roots. -/
theorem ofSection_congr (d phpRoot jsRoot : Path)
    (h : ∀ name, name ∉ rootNames → get? name members = get? name members') :
    ofSection d phpRoot jsRoot members = ofSection d phpRoot jsRoot members' := by
  rw [ofSection_eq, ofSection_eq, resolvedBinDir?_congr d (h "bin_dir" (by decide))]
  refine congrArg _ (funext fun binDir => ?_)
  have hkept (name : Text) : get? name (without (resolvedNames binDir) members) =
      get? name (without (resolvedNames binDir) members') := by
    rw [get?_without, get?_without]
    split
    · rfl
    · next hname => exact h name fun hroot => hname (List.mem_append_left _ hroot)
  rw [ofTable, ofTable, check_congr d hkept]

/-! ### Layers -/

theorem overridden_cons (name : Text) (v : Json) (overrides members : Table Json) :
    overridden ((name, v) :: overrides) members =
      overridden overrides (if v.isNull then members else Table.insert name v members) := by
  cases v <;> rfl

/-- Under a name stands what stood there before, unless an override has that name. -/
theorem get?_overridden_congr
    (h : List.Forall₂ (fun m m' => m.1 = m'.1 ∧ (m.1 = name → m.2 = m'.2)) overrides overrides')
    (hget : get? name members = get? name members') :
    get? name (overridden overrides members) = get? name (overridden overrides' members') := by
  induction h generalizing members members' with
  | nil => exact hget
  | @cons m m' overrides overrides' hm _ ih =>
    obtain ⟨key, v⟩ := m
    obtain ⟨key', v'⟩ := m'
    obtain ⟨rfl, hv⟩ := hm
    rw [overridden_cons, overridden_cons]
    refine ih ?_
    by_cases hkey : key = name
    · cases hv hkey
      split
      · exact hget
      · rw [Table.get?_insert, Table.get?_insert, if_pos hkey, if_pos hkey]
    · split <;> split <;> simp only [Table.get?_insert, if_neg hkey, hget]

theorem get?_overridden_self (overrides : Table Json) (h : get? name members = get? name members') :
    get? name (overridden overrides members) = get? name (overridden overrides members') :=
  get?_overridden_congr (List.forall₂_same.mpr fun _ _ => ⟨rfl, fun _ => rfl⟩) h

/-- What stood under the name of an override does not count. -/
theorem get?_overridden_of_mem {v : Json} (h : (name, v) ∈ overrides) (hv : v.isNull = false)
    (members members' : Table Json) :
    get? name (overridden overrides members) = get? name (overridden overrides members') := by
  induction overrides generalizing members members' with
  | nil => cases h
  | cons m overrides ih =>
    obtain ⟨key, u⟩ := m
    rw [overridden_cons, overridden_cons]
    rcases List.mem_cons.mp h with heq | h
    · cases heq
      rw [hv]
      refine get?_overridden_self overrides ?_
      rw [if_neg Bool.false_ne_true, if_neg Bool.false_ne_true, Table.get?_insert,
        Table.get?_insert, if_pos rfl, if_pos rfl]
    · exact ih h _ _

/-- The time limit that the environment asks for. -/
def limitIn (environment : Table Text) : Option Json :=
  match get? "CODE_QUALITY_TIMEOUT" environment with
  | some (c :: s) => some (.string (c :: s))
  | _ => none

theorem get?_withTimeout (environment : Table Text) (members : Table Json) (name : Text) :
    get? name (withTimeout environment members) =
      if name = "timeout" then (get? "timeout" members).or (limitIn environment)
      else get? name members := by
  unfold withTimeout limitIn
  cases hmember : get? (Text.ofString "timeout") members with
  | some v =>
    have hkept : (some v).or (limitIn environment) = some v := rfl
    by_cases hname : name = Text.ofString "timeout"
    · subst hname
      rw [if_pos rfl]
      split <;> simp_all
    · rw [if_neg hname]
      split <;> simp_all
  | none =>
    by_cases hname : name = Text.ofString "timeout"
    · subst hname
      rw [if_pos rfl]
      split <;> simp_all [Table.get?_insert]
    · rw [if_neg hname]
      split <;> simp_all [Table.get?_insert, Ne.symm hname]

/-! ### Spelled names -/

/-- The members of the section of a Composer file under the names by which they are spelled
there. -/
def spelledSection (document : Json) : Table Json :=
  match (document.member "extra").member sectionName with
  | .object members => members
  | _ => []

/-- A member under its normal name. -/
def normalMember (m : Text × Json) : Text × Json := (normalName m.1, m.2)

theorem sectionOf_eq (document : Json) :
    sectionOf document = Table.ofList ((spelledSection document).map normalMember) := by
  unfold sectionOf spelledSection
  cases (document.member "extra").member sectionName <;> rfl

/-- The section of the Composer file in a directory, as it is spelled there. A file that is not
there or cannot be decoded has none. -/
def spelledIn (w : Workspace) (d directory : Path) : Table Json :=
  match w.file? (Path.resolve d (directory.below "composer.json")) with
  | none => []
  | some bytes =>
    match documentOf bytes with
    | .ok document => spelledSection document
    | .error _ => []

theorem sectionIn_eq (w : Workspace) (d directory : Path) :
    sectionIn w d directory = Table.ofList ((spelledIn w d directory).map normalMember) := by
  unfold sectionIn spelledIn
  cases w.file? (Path.resolve d (directory.below "composer.json")) with
  | none => rfl
  | some bytes =>
    dsimp only
    cases documentOf bytes with
    | ok document => exact sectionOf_eq document
    | error name => rfl

/-- Two sections have the same members, in the same order, but for those whose normal names are
hidden. -/
def SameAside (hidden : Text → Bool) (spelled spelled' : Table Json) : Prop :=
  spelled.filter (fun m => !hidden (normalName m.1)) =
    spelled'.filter fun m => !hidden (normalName m.1)

theorem SameAside.get?_eq {hidden : Text → Bool} {spelled spelled' : Table Json}
    (h : SameAside hidden spelled spelled') (hname : hidden name = false) :
    get? name (Table.ofList (spelled.map normalMember)) =
      get? name (Table.ofList (spelled'.map normalMember)) := by
  have honly (spelled : Table Json) : Table.only [name] (spelled.map normalMember) =
      Table.only [name] ((spelled.filter fun m => !hidden (normalName m.1)).map normalMember) := by
    simp only [Table.only, List.filter_map, List.filter_filter]
    refine congrArg _ (List.filter_congr fun m _ => ?_)
    by_cases hm : normalName m.1 = name
    · simp [normalMember, hm, hname]
    · simp [normalMember, hm]
  refine Table.get?_ofList_congr ?_
  rw [honly spelled, honly spelled', h]

/-- A name that is spelled in a section has a value there. -/
theorem exists_get?_of_mem {spelled : Table Json} {m : Text × Json} (hm : m ∈ spelled)
    (hname : normalName m.1 = name) :
    ∃ v, get? name (Table.ofList (spelled.map normalMember)) = some v := by
  have hmem : name ∈ (Table.ofList (spelled.map normalMember)).map Prod.fst :=
    Table.mem_names_ofList.mpr (List.mem_map.mpr
      ⟨normalMember m, List.mem_map_of_mem hm, hname⟩)
  rw [← Option.isSome_iff_exists, ← Option.not_isNone, Bool.not_eq_true', Bool.eq_false_iff]
  exact fun hnone => Table.isNone_get?.mp hnone hmem

/-! ### Outranked values -/

/-- Is the value under a name of the section outranked? The roots are given by the command line or
not at all, and all other values give way to those of the command line. -/
def isOutranked (overrides : Table Json) (name : Text) : Bool :=
  rootNames.contains name || overrides.any fun m => m.1 = name && !m.2.isNull

/-- Two workspaces have the same settings but for those that are outranked: values of the section
by the command line, and the time limit of the environment by that of the section. -/
structure SameInForce (overrides : Table Json) (d directory : Path) (w w' : Workspace) : Prop where
  section_same : SameAside (isOutranked overrides) (spelledIn w d directory)
    (spelledIn w' d directory)
  limit_same : (∃ m ∈ spelledIn w d directory, normalName m.1 = "timeout") ∨
    get? "CODE_QUALITY_TIMEOUT" w.environment = get? "CODE_QUALITY_TIMEOUT" w'.environment

/-- A value that is not outranked is the same in both workspaces. -/
theorem SameInForce.get?_membersIn (h : SameInForce overrides d directory w w')
    (hroot : name ∉ rootNames) :
    get? name (membersIn w d directory overrides) =
      get? name (membersIn w' d directory overrides) := by
  cases hover : overrides.any fun m => m.1 = name && !m.2.isNull with
  | true =>
    obtain ⟨⟨key, v⟩, hmem, hv⟩ := List.any_eq_true.mp hover
    simp only [Bool.and_eq_true, decide_eq_true_eq, Bool.not_eq_true'] at hv
    obtain ⟨rfl, hv⟩ := hv
    exact get?_overridden_of_mem hmem hv _ _
  | false =>
    have hname : isOutranked overrides name = false := by simp [isOutranked, hroot, hover]
    have hsection := h.section_same.get?_eq hname
    refine get?_overridden_self overrides ?_
    rw [sectionIn_eq, sectionIn_eq, get?_withTimeout, get?_withTimeout]
    by_cases hlimit : name = "timeout"
    · subst hlimit
      rw [if_pos rfl, if_pos rfl, ← hsection]
      rcases h.limit_same with ⟨m, hm, htimeout⟩ | henvironment
      · obtain ⟨v, hv⟩ := exists_get?_of_mem hm htimeout
        rw [hv]
        rfl
      · rw [limitIn, limitIn, henvironment]
    · rw [if_neg hlimit, if_neg hlimit, hsection]

/-- What is outranked changes nothing: neither the settings that are loaded nor the problems with
them or the fault in which loading ends. The roots of loaded settings come from the arguments and
from the current directory. -/
theorem load_outranked {σ σ' : Session} {phpRoot jsRoot : Option Text}
    (hdirectory : σ'.directory = σ.directory)
    (hsame : ∀ directory, rootFrom σ.directory phpRoot = .ok directory →
      SameInForce overrides σ.directory directory σ.workspace σ'.workspace) :
    (load phpRoot jsRoot overrides).given σ' = (load phpRoot jsRoot overrides).given σ ∧
      ∀ s, (load phpRoot jsRoot overrides).given σ = .ok s →
        rootFrom σ.directory phpRoot = .ok s.phpRoot ∧
          rootFrom σ.directory jsRoot = .ok s.jsRoot := by
  rw [(hasEffect_load _ _ _).given_eq, (hasEffect_load _ _ _).given_eq, hdirectory]
  refine ⟨?_, fun s hs => roots_of_loadIn hs⟩
  dsimp only
  rcases loadIn_cases σ.directory phpRoot jsRoot with ⟨fault, hfault⟩ | ⟨php, js, hphp, -, hload⟩
  · rw [hfault, hfault]
  · have hmembers : ∀ name, name ∉ rootNames →
        get? name (membersIn σ'.workspace σ.directory php overrides) =
          get? name (membersIn σ.workspace σ.directory php overrides) :=
      fun name hname => ((hsame php hphp).get?_membersIn hname).symm
    rw [hload, hload, ofSection_congr σ.directory php js hmembers]

/-- A session with a Composer file that has a section, and with an environment. -/
def composerSession (members : String) (environment : Table Text) : Session where
  workspace := {
    files := [(⟨.slash, ["project", "composer.json"]⟩,
      (Text.ofString ("\x7b\"extra\":\x7b\"gitlab-code-quality\":\x7b" ++ members ++
        "\x7d\x7d\x7d")).flatMap CodePoint.utf8)]
    environment }
  directory := Snapshot.home

/-- A project whose values for a root and for strictness could not even be used. -/
def unusable : Session :=
  composerSession "\"php_root\":5,\" Strict \":[],\"timeout\":3" [("CODE_QUALITY_TIMEOUT", "soon")]

/-- The same project with another value for strictness, and without a time limit in its
environment. -/
def otherwiseUnusable : Session :=
  composerSession "\"STRICT\":\"perhaps\",\"timeout\":3" []

/-- What a strict run still sees of the section of a project. -/
def keptInStrict (σ : Session) : Table Json :=
  (spelledIn σ.workspace Snapshot.home Snapshot.home).filter
    fun m => !isOutranked [("strict", .bool true)] (normalName m.1)

/-- Is this a time limit of three seconds? -/
def isShortLimit : Text × Json → Bool
  | (name, .int n) => name = "timeout" && n = 3
  | _ => false

theorem eq_of_isShortLimit {m : Text × Json} (h : isShortLimit m = true) :
    m = (Text.ofString "timeout", .int 3) := by
  obtain ⟨name, v⟩ := m
  cases v with
  | int n =>
    simp only [isShortLimit, Bool.and_eq_true, decide_eq_true_eq] at h
    rw [h.1, h.2]
  | _ => cases h

theorem keptInStrict_eq {σ : Session}
    (h : ((keptInStrict σ).length == 1 && (keptInStrict σ).all isShortLimit) = true) :
    keptInStrict σ = [(Text.ofString "timeout", .int 3)] := by
  rw [Bool.and_eq_true, beq_iff_eq] at h
  exact List.eq_replicate_iff.mpr
    ⟨h.1, fun m hm => eq_of_isShortLimit (List.all_eq_true.mp h.2 m hm)⟩

theorem keptInStrict_unusable : keptInStrict unusable = [(Text.ofString "timeout", .int 3)] :=
  keptInStrict_eq (by decide +kernel)

theorem keptInStrict_otherwiseUnusable :
    keptInStrict otherwiseUnusable = [(Text.ofString "timeout", .int 3)] :=
  keptInStrict_eq (by decide +kernel)

theorem sameInForce_of_keptInStrict {σ σ' : Session}
    (h : keptInStrict σ = [(Text.ofString "timeout", .int 3)])
    (h' : keptInStrict σ' = [(Text.ofString "timeout", .int 3)]) :
    SameInForce [("strict", .bool true)] Snapshot.home Snapshot.home σ.workspace σ'.workspace where
  section_same := h.trans h'.symm
  limit_same := .inl ⟨_, List.mem_of_mem_filter (h ▸ List.mem_singleton.mpr rfl), by decide⟩

theorem strict_unusable :
    ((load none none [("strict", .bool true)]).given unusable).toOption.map Settings.strict =
      some true := by
  decide +kernel

/-- A strict run in the two projects. -/
theorem load_outranked_strict :
    (load none none [("strict", .bool true)]).given otherwiseUnusable =
      (load none none [("strict", .bool true)]).given unusable ∧
    ∃ s, (load none none [("strict", .bool true)]).given unusable = .ok s ∧
      s.strict = true ∧ s.phpRoot = Snapshot.home := by
  have hsame : SameInForce [("strict", .bool true)] Snapshot.home Snapshot.home unusable.workspace
      otherwiseUnusable.workspace :=
    sameInForce_of_keptInStrict keptInStrict_unusable keptInStrict_otherwiseUnusable
  obtain ⟨hload, hroots⟩ := @load_outranked [("strict", .bool true)] unusable otherwiseUnusable none
    none rfl fun directory hdirectory => by
      cases hdirectory
      exact hsame
  refine ⟨hload, ?_⟩
  have hstrict := strict_unusable
  cases hs : (load none none [("strict", .bool true)]).given unusable with
  | error fault =>
    rw [hs] at hstrict
    cases hstrict
  | ok s =>
    rw [hs] at hstrict
    obtain ⟨hroot, -⟩ := hroots s hs
    exact ⟨s, rfl, Option.some.inj hstrict, (Except.ok.inj hroot).symm⟩

end Settings

end LintReport
