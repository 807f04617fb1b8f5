import LintReport.Proofs.Settings.Outranked

/-!
Settings for the diagnostics: the verbosity, and what the statistics show. They can be told from the
rest: two tables that have the same values under all other names give the same settings but for
these, or the same problems, as long as the values for these are accepted.
-/
namespace LintReport

open Table (get?)

variable {w w' : Workspace} {d : Path} {members members' : Table Json}

namespace Settings

/-- The names of the settings for the diagnostics. -/
def diagnosticNames : List Text := ["verbosity", "stats", "last"]

/-- The settings with the defaults of the diagnostics. -/
def undiagnosed (s : Settings) : Settings :=
  { s with stats := true, last := .never, verbosity := 1 }

/-- A table whose values for the diagnostics, if it has any, are accepted. -/
structure AcceptsDiagnostics (members : Table Json) : Prop where
  stats : (setting ["stats"] true truth members).problems = []
  last : (setting ["last"] .never lastPolicy members).problems = []
  verbosity : (setting ["verbosity"] 1 whole members).problems = []

instance (members : Table Json) : Decidable (AcceptsDiagnostics members) :=
  decidable_of_iff ((setting ["stats"] true truth members).problems = [] ∧
      (setting ["last"] .never lastPolicy members).problems = [] ∧
      (setting ["verbosity"] 1 whole members).problems = [])
    ⟨fun h => ⟨h.1, h.2.1, h.2.2⟩, fun h => ⟨h.stats, h.last, h.verbosity⟩⟩

/-- Two checks that meet the same problems and come to values that belong together. -/
structure Checked.Alike {α : Type} (R : α → α → Prop) (c c' : Checked α) : Prop where
  problems_eq : c.problems = c'.problems
  value : R c.value c'.value

namespace Checked.Alike

variable {α β : Type} {R : α → α → Prop} {S : β → β → Prop} {c c' : Checked α}
  {f f' : α → Checked β}

theorem of_accepted (h : c.problems = []) (h' : c'.problems = []) : Alike (fun _ _ => True) c c' :=
  ⟨h.trans h'.symm, trivial⟩

theorem pure {x x' : α} (h : R x x') : Alike R (Pure.pure x) (Pure.pure x') := ⟨rfl, h⟩

theorem bind (h : Alike R c c') (hf : ∀ x x', R x x' → Alike S (f x) (f' x')) :
    Alike S (c >>= f) (c' >>= f') := by
  have hrest := hf _ _ h.value
  exact ⟨congrArg₂ (· ++ ·) h.problems_eq hrest.problems_eq, hrest.value⟩

theorem bind_eq (h : c = c') (hf : ∀ x, Alike S (f x) (f' x)) : Alike S (c >>= f) (c' >>= f') := by
  subst h
  exact bind ⟨rfl, rfl⟩ fun x _ heq => heq ▸ hf x

end Checked.Alike

theorem check_undiagnosed (d : Path)
    (h : ∀ name, name ∉ diagnosticNames → get? name members = get? name members')
    (hm : AcceptsDiagnostics members) (hm' : AcceptsDiagnostics members') :
    Checked.Alike (fun s s' => s.undiagnosed = s'.undiagnosed) (check d members)
      (check d members') := by
  have hsetting {α : Type} {names : List Text} {default : α} {rule : Rule α}
      (hnames : ∀ name ∈ names, name ∉ diagnosticNames) :
      setting names default rule members = setting names default rule members' :=
    setting_congr fun name hname => h name (hnames name hname)
  have hforTools {α : Type} {check check' : Tool → Checked α} (h : ∀ t, check t = check' t) :
      Checked.forTools Tool.all check = Checked.forTools Tool.all check' :=
    congrArg _ (funext h)
  unfold check
  refine .bind_eq (hsetting (by decide +kernel)) fun phpRoot => ?_
  refine .bind_eq (hsetting (by decide +kernel)) fun jsRoot => ?_
  refine .bind_eq (hsetting (by decide +kernel)) fun binDir => ?_
  refine .bind_eq (hsetting (by decide +kernel)) fun phpDir => ?_
  refine .bind_eq (hsetting (by decide +kernel)) fun jsDir => ?_
  refine .bind_eq (hsetting (by decide +kernel)) fun styleLintFiles => ?_
  refine .bind_eq (hsetting (by decide +kernel)) fun bun => ?_
  refine .bind_eq (hsetting (by decide +kernel)) fun node => ?_
  refine .bind_eq (hforTools fun t => hsetting (by cases t <;> decide +kernel)) fun enabled => ?_
  refine .bind_eq (hforTools fun t => hsetting (by cases t <;> decide +kernel)) fun rules => ?_
  refine .bind_eq (hsetting (by decide +kernel)) fun reporter => ?_
  refine .bind (.of_accepted hm.stats hm'.stats) fun stats stats' _ => ?_
  refine .bind (.of_accepted hm.last hm'.last) fun last last' _ => ?_
  refine .bind_eq (hsetting (by decide +kernel)) fun silent => ?_
  refine .bind_eq (hsetting (by decide +kernel)) fun cache => ?_
  refine .bind_eq (hsetting (by decide +kernel)) fun strict => ?_
  refine .bind (.of_accepted hm.verbosity hm'.verbosity) fun verbosity verbosity' _ => ?_
  refine .bind_eq (hsetting (by decide +kernel)) fun timeout => ?_
  exact .pure rfl

theorem ofTable_undiagnosed (d : Path)
    (h : ∀ name, name ∉ diagnosticNames → get? name members = get? name members')
    (hm : AcceptsDiagnostics members) (hm' : AcceptsDiagnostics members') :
    (ofTable d members).map undiagnosed = (ofTable d members').map undiagnosed := by
  have hcheck := check_undiagnosed d h hm hm'
  rw [ofTable, ofTable, Checked.toExcept, Checked.toExcept, hcheck.problems_eq]
  split
  · exact congrArg Except.ok hcheck.value
  · rfl

theorem AcceptsDiagnostics.without (h : AcceptsDiagnostics members) {names : List Text}
    (hnames : ∀ name ∈ diagnosticNames, name ∉ names) :
    AcceptsDiagnostics (without names members) := by
  have hget {name : Text} (hname : name ∈ diagnosticNames) :
      get? name (Settings.without names members) = get? name members := by
    rw [get?_without, if_neg (hnames name hname)]
  have hsetting {α : Type} {name : Text} (default : α) (rule : Rule α)
      (hname : name ∈ diagnosticNames) :
      setting [name] default rule (Settings.without names members) =
        setting [name] default rule members :=
    setting_congr fun other hother => List.mem_singleton.mp hother ▸ hget hname
  refine ⟨?_, ?_, ?_⟩
  · rw [hsetting _ _ (by decide)]
    exact h.stats
  · rw [hsetting _ _ (by decide)]
    exact h.last
  · rw [hsetting _ _ (by decide)]
    exact h.verbosity

/-- The settings of a section, but for the diagnostics, depend on what stands under other names than
theirs and those of the roots. -/
theorem ofSection_undiagnosed (d phpRoot jsRoot : Path)
    (h : ∀ name, name ∉ rootNames → name ∉ diagnosticNames →
      get? name members = get? name members')
    (hm : AcceptsDiagnostics members) (hm' : AcceptsDiagnostics members') :
    (ofSection d phpRoot jsRoot members).map undiagnosed =
      (ofSection d phpRoot jsRoot members').map undiagnosed := by
  have hmap (binDir : Option Path) (r : Except Fault Settings) :
      (r.map (withPaths phpRoot jsRoot binDir)).map undiagnosed =
        (r.map undiagnosed).map (withPaths phpRoot jsRoot binDir) := by
    cases r <;> rfl
  rw [ofSection_eq, ofSection_eq,
    resolvedBinDir?_congr d (h "bin_dir" (by decide) (by decide))]
  cases resolvedBinDir? d members' with
  | error fault => rfl
  | ok binDir =>
    have hnames : ∀ name ∈ diagnosticNames, name ∉ resolvedNames binDir := by
      cases binDir with
      | none => decide +kernel
      | some p =>
        change ∀ name ∈ diagnosticNames, name ∉ rootNames ++ [Text.ofString "bin_dir"]
        decide +kernel
    have hkept : ∀ name, name ∉ diagnosticNames →
        get? name (without (resolvedNames binDir) members) =
          get? name (without (resolvedNames binDir) members') := by
      intro name hname
      rw [get?_without, get?_without]
      split
      · rfl
      · next hkept => exact h name (fun hroot => hkept (List.mem_append_left _ hroot)) hname
    change Except.map undiagnosed (Except.map _ (ofTable d _)) =
      Except.map undiagnosed (Except.map _ (ofTable d _))
    rw [hmap, hmap, ofTable_undiagnosed d hkept (hm.without hnames) (hm'.without hnames)]

/-! ### Loading -/

/-- Two workspaces and command lines have the same settings but for the diagnostics, whose values
are accepted. -/
structure SameUndiagnosed (d directory : Path) (overrides overrides' : Table Json)
    (w w' : Workspace) : Prop where
  section_same : SameAside diagnosticNames.contains (spelledIn w d directory)
    (spelledIn w' d directory)
  limit_same : get? "CODE_QUALITY_TIMEOUT" w.environment =
    get? "CODE_QUALITY_TIMEOUT" w'.environment
  overrides_same : List.Forall₂ (fun m m' => m.1 = m'.1 ∧ (m.1 ∉ diagnosticNames → m.2 = m'.2))
    overrides overrides'
  accepted : AcceptsDiagnostics (membersIn w d directory overrides)
  accepted' : AcceptsDiagnostics (membersIn w' d directory overrides')

theorem SameUndiagnosed.get?_membersIn {directory : Path} {overrides overrides' : Table Json}
    (h : SameUndiagnosed d directory overrides overrides' w w') {name : Text}
    (hname : name ∉ diagnosticNames) :
    get? name (membersIn w d directory overrides) =
      get? name (membersIn w' d directory overrides') := by
  have hhidden : diagnosticNames.contains name = false := by simpa using hname
  have hsection := h.section_same.get?_eq hhidden
  refine get?_overridden_congr (h.overrides_same.imp fun m m' hm =>
    ⟨hm.1, fun heq => hm.2 (heq ▸ hname)⟩) ?_
  rw [sectionIn_eq, sectionIn_eq, get?_withTimeout, get?_withTimeout]
  by_cases hlimit : name = "timeout"
  · subst hlimit
    rw [if_pos rfl, if_pos rfl, hsection, limitIn, limitIn, h.limit_same]
  · rw [if_neg hlimit, if_neg hlimit, hsection]

/-- Where all but the diagnostics is the same, the settings are the same but for these, and so are
the problems with them and the fault in which loading ends. -/
theorem loadIn_undiagnosed {phpRoot jsRoot : Option Text} {overrides overrides' : Table Json}
    (h : ∀ directory, rootFrom d phpRoot = .ok directory →
      SameUndiagnosed d directory overrides overrides' w w') :
    (loadIn w d phpRoot jsRoot overrides).map undiagnosed =
      (loadIn w' d phpRoot jsRoot overrides').map undiagnosed := by
  rcases loadIn_cases d phpRoot jsRoot with ⟨fault, hfault⟩ | ⟨php, js, hphp, -, hload⟩
  · rw [hfault, hfault]
  · rw [hload, hload]
    exact ofSection_undiagnosed d php js (fun name _ hname => (h php hphp).get?_membersIn hname)
      (h php hphp).accepted (h php hphp).accepted'

end Settings

end LintReport
