import LintReport.Proofs.Number.Padded
import LintReport.Settings.Basic

/-!
Rules and the spaces around texts. Most rules take a text without the spaces around it. A truth
value, the word for a reporter and a number with an underscore have to be given exactly: with spaces
around them they become problems. The checks of a table go on to the end whatever they meet, so a
table with spaces has at least the problems of the table without them.
-/
namespace LintReport

open Table (get?)
open Text (Spaced)

/-- The same value, or a text with spaces around it. -/
inductive Json.Padded : Json → Json → Prop
  | same (v : Json) : Padded v v
  | spaced {s s' : Text} (h : Spaced s s') : Padded (.string s) (.string s')

open Json (Padded)

variable {α β : Type} {name : Text} {names : List Text} {members members' : Table Json}
  {s s' : Text}

theorem Text.Spaced.any_isSurrogate (h : Spaced s s') :
    s'.any CodePoint.isSurrogate = s.any CodePoint.isSurrogate := by
  rw [Bool.eq_iff_iff, List.any_eq_true, List.any_eq_true]
  refine exists_congr fun c => and_congr_left fun hc => h.mem_iff ?_
  rintro rfl
  cases hc

namespace Settings

variable {rule : Rule α} {exact : Json → Prop}

/-! ### Rules -/

/-- A rule takes texts without the spaces around them, but for those that have to be given exactly.
These are refused with any space around them. -/
structure Trims (rule : Rule α) (exact : Json → Prop) : Prop where
  same : ∀ {s s' : Text}, Spaced s s' → ¬ exact (.string s) →
    (rule (.string s')).toOption = (rule (.string s)).toOption
  refused : ∀ {s s' : Text}, Spaced s s' → s' ≠ s → exact (.string s) →
    (rule (.string s')).toOption = none

/-- No value has to be given exactly. -/
def nothing (_ : Json) : Prop := False

/-- Every value has to be given exactly. -/
def anything (_ : Json) : Prop := True

/-- A text with an underscore in it. -/
def underscored : Json → Prop
  | .string s => .scalar '_' ∈ s
  | _ => False

theorem trims_of_eq (h : ∀ {s s' : Text}, Spaced s s' →
    (rule (.string s')).toOption = (rule (.string s)).toOption) : Trims rule nothing where
  same := fun hspaced _ => h hspaced
  refused := fun _ _ => False.elim

theorem trims_text : Trims text nothing := trims_of_eq fun h => by
  rw [text, text, h.any_isSurrogate, Text.trimWhiteSpace, Text.trimWhiteSpace,
    h.trim_eq (by decide)]

theorem trims_path : Trims path nothing := trims_of_eq fun h => by
  rw [path, path, h.any_isSurrogate, Text.trimWhiteSpace, Text.trimWhiteSpace,
    h.trim_eq (by decide)]

theorem trims_switch : Trims switch nothing := trims_of_eq fun _ => rfl

theorem trims_lastPolicy : Trims lastPolicy nothing := trims_of_eq fun {s s'} h => by
  have htrim : s'.trimBlanks = s.trimBlanks := h.trim_eq (by decide)
  rw [lastPolicy, lastPolicy, htrim]

theorem trims_whole : Trims whole nothing := trims_of_eq fun {s s'} h => by
  have hoption (s : Text) : (whole (.string s)).toOption =
      if s.any CodePoint.isSurrogate then none else s.toWholeNumber.toOption := by
    rw [whole]
    split
    · rfl
    · cases s.toWholeNumber with
      | ok n => rfl
      | error mistake => cases mistake <;> rfl
  rw [hoption, hoption, h.any_isSurrogate, h.toOption_toWholeNumber_eq]

theorem trims_real : Trims real underscored := by
  have hoption (s : Text) : (real (.string s)).toOption =
      if s.any CodePoint.isSurrogate then none else s.toBinary64? := by
    rw [real]
    split
    · rfl
    · cases s.toBinary64? <;> rfl
  refine ⟨fun {s s'} h hexact => ?_, fun {s s'} h hne hexact => ?_⟩
  · by_cases hne : s' = s
    · rw [hne]
    · have hnot : .scalar '_' ∉ s := hexact
      rw [hoption, hoption, h.any_isSurrogate, h.toBinary64?_eq hne, if_neg hnot]
  · have hmem : .scalar '_' ∈ s := hexact
    rw [hoption, h.toBinary64?_eq hne, if_pos hmem, ite_self]

theorem find?_eq_none {words : List (Text × α)} (hwords : ∀ w ∈ words, .scalar ' ' ∉ w.1)
    {spelling : Text} (hspace : .scalar ' ' ∈ spelling) :
    (words.find? fun w => w.1 = spelling) = none := by
  refine List.find?_eq_none.mpr fun w hw heq => hwords w hw ?_
  rwa [of_decide_eq_true heq]

theorem trims_truth : Trims truth anything where
  same := fun _ h => absurd trivial h
  refused := fun {s s'} h hne _ => by
    have hspace : .scalar ' ' ∈ s'.asciiLower :=
      List.mem_map.mpr ⟨_, h.mem_space hne, rfl⟩
    rw [truth, find?_eq_none (by decide) hspace]
    split <;> rfl

theorem trims_oneOf {words : List (Text × α)} (hwords : ∀ w ∈ words, .scalar ' ' ∉ w.1) :
    Trims (oneOf words) anything where
  same := fun _ h => absurd trivial h
  refused := fun {s s'} h hne _ => by
    rw [oneOf, find?_eq_none hwords (h.mem_space hne)]
    split <;> rfl

theorem Trims.nullable (h : Trims rule exact) : Trims (nullable rule) exact := by
  have hoption (s : Text) : (Settings.nullable rule (.string s)).toOption =
      (rule (.string s)).toOption.map some := by
    change ((rule (.string s)).map some).toOption = _
    cases rule (.string s) <;> rfl
  refine ⟨fun hspaced hexact => ?_, fun hspaced hne hexact => ?_⟩
  · rw [hoption, hoption, h.same hspaced hexact]
  · rw [hoption, h.refused hspaced hne hexact, Option.map_none]

/-! ### Single settings -/

/-- The names of the settings that are a problem. -/
def Checked.fields (c : Checked α) : List Text := c.problems.map Problem.field

/-- The value of a setting that is accepted and has to be given exactly is still the same. -/
def Spares (names : List Text) (rule : Rule α) (exact : Json → Prop)
    (members members' : Table Json) : Prop :=
  ∀ m ∈ given? names members, exact m.2 → (rule m.2).toOption.isSome →
    given? names members' = some m

theorem spares_nothing : Spares names rule nothing members members' := fun _ _ => False.elim

/-- Under every one of the names is the same value, or a text with spaces around it. -/
def PaddedUnder (names : List Text) (members members' : Table Json) : Prop :=
  ∀ name ∈ names, Option.Rel Padded (get? name members) (get? name members')

theorem given?_cases (h : PaddedUnder names members members') :
    given? names members = none ∧ given? names members' = none ∨
      ∃ name v v', given? names members = some (name, v) ∧
        given? names members' = some (name, v') ∧ Padded v v' := by
  induction names with
  | nil => exact .inl ⟨rfl, rfl⟩
  | cons name names ih =>
    obtain ⟨hname, hnames⟩ := List.forall_mem_cons.mp h
    have hrest := ih hnames
    unfold given? at hrest ⊢
    rw [List.findSome?_cons, List.findSome?_cons]
    revert hname
    generalize get? name members = v
    generalize get? name members' = v'
    rintro (hv | _)
    · exact .inr ⟨name, _, _, rfl, rfl, hv⟩
    · exact hrest

theorem Trims.cases (htrims : Trims rule exact) {v v' : Json} (h : Padded v v') :
    (rule v').toOption = (rule v).toOption ∧ (exact v → v' = v) ∨
      v' ≠ v ∧ exact v ∧ (rule v').toOption = none := by
  cases h with
  | same => exact .inl ⟨rfl, fun _ => rfl⟩
  | @spaced s s' h =>
    by_cases hexact : exact (.string s)
    · by_cases hne : s' = s
      · exact .inl ⟨by rw [hne], fun _ => by rw [hne]⟩
      · exact .inr ⟨fun heq => hne (Json.string.inj heq), hexact, htrims.refused h hne hexact⟩
    · exact .inl ⟨htrims.same h hexact, fun h => absurd h hexact⟩

theorem setting_of_given {v : Json} (rule : Rule α) (default : α)
    (h : given? names members = some (name, v)) :
    (setting names default rule members).value = (rule v).toOption.getD default ∧
      (setting names default rule members).fields =
        if (rule v).toOption.isSome then [] else [name] := by
  rw [setting, h]
  dsimp only
  cases rule v <;> exact ⟨rfl, rfl⟩

/-- Spaces around what is given for a setting change nothing as long as what has to be given exactly
is spared. Where it is not, the setting becomes a problem. -/
theorem setting_cases (default : α) (htrims : Trims rule exact)
    (hpadded : PaddedUnder names members members') :
    Spares names rule exact members members' ∧
        (setting names default rule members').value = (setting names default rule members).value ∧
        (setting names default rule members').fields =
          (setting names default rule members).fields ∨
      ¬ Spares names rule exact members members' ∧
        (setting names default rule members).fields = [] ∧
        (setting names default rule members').fields ≠ [] := by
  rcases given?_cases hpadded with ⟨hm, hm'⟩ | ⟨name, v, v', hm, hm', hv⟩
  · refine .inl ⟨fun m hmem => ?_, ?_⟩
    · rw [hm] at hmem
      cases hmem
    · rw [setting, setting, hm, hm']
      exact ⟨rfl, rfl⟩
  · obtain ⟨hvalue, hfields⟩ := setting_of_given rule default hm
    obtain ⟨hvalue', hfields'⟩ := setting_of_given rule default hm'
    have hspares : Spares names rule exact members members' ↔
        (exact v → (rule v).toOption.isSome → v' = v) := by
      rw [Spares, hm, hm']
      simp
    rw [hspares, hvalue, hvalue', hfields, hfields']
    rcases htrims.cases hv with ⟨hsame, hspared⟩ | ⟨hne, hexact, hrefused⟩
    · rw [hsame]
      exact .inl ⟨fun hexact _ => hspared hexact, rfl, rfl⟩
    · rw [hrefused]
      cases (rule v).toOption with
      | none => exact .inl ⟨fun _ h => (by cases h), rfl, rfl⟩
      | some a => exact .inr ⟨fun h => hne (h hexact rfl), rfl, List.cons_ne_nil _ _⟩

/-! ### All settings -/

/-- Checks of a table and of one with spaces in it. Where what has to be given exactly is spared,
both meet the same problems and come to values that belong together. The second one never meets
fewer problems, and as many only if `P` holds. -/
structure Grows (spared P : Prop) (R : α → α → Prop) (c c' : Checked α) : Prop where
  fields_eq : spared → c'.fields = c.fields
  value : spared → R c.value c'.value
  length_le : c.fields.length ≤ c'.fields.length
  of_length_eq : c'.fields.length = c.fields.length → P

namespace Grows

variable {spared P Q : Prop} {R : α → α → Prop} {S : β → β → Prop} {c c' : Checked α}

theorem fields_eq_iff (h : Grows spared spared R c c') : c'.fields = c.fields ↔ spared :=
  ⟨fun heq => h.of_length_eq (congrArg List.length heq), h.fields_eq⟩

theorem of_fields_eq (h : c'.fields = c.fields) : Grows spared True (fun _ _ => True) c c' :=
  ⟨fun _ => h, fun _ => trivial, (congrArg List.length h).ge, fun _ => trivial⟩

theorem pure {x x' : α} (h : spared → R x x') (hP : P) :
    Grows spared P R (Pure.pure x : Checked α) (Pure.pure x') :=
  ⟨fun _ => rfl, h, Nat.le_refl _, fun _ => hP⟩

/-- As many problems altogether are as many problems in every part. -/
theorem bind {f f' : α → Checked β} (h : Grows spared P R c c')
    (hf : ∀ x x', (spared → R x x') → Grows spared (P → Q) S (f x) (f' x')) :
    Grows spared Q S (c >>= f) (c' >>= f') := by
  have hfields (c : Checked α) (f : α → Checked β) :
      (c >>= f).fields = c.fields ++ (f c.value).fields := List.map_append
  have hrest := hf _ _ h.value
  have hle := h.length_le
  have hle' := hrest.length_le
  refine ⟨fun hspared => ?_, hrest.value, ?_, fun heq => ?_⟩
  · rw [hfields, hfields, h.fields_eq hspared, hrest.fields_eq hspared]
  · rw [hfields, hfields, List.length_append, List.length_append]
    exact Nat.add_le_add hle hle'
  · rw [hfields, hfields, List.length_append, List.length_append] at heq
    exact hrest.of_length_eq (by omega) (h.of_length_eq (by omega))

theorem forTools {check check' : Tool → Checked α} {P : Tool → Prop} (tools : List Tool)
    (h : ∀ t, Grows spared (P t) Eq (check t) (check' t)) :
    Grows spared True Eq (Checked.forTools tools check) (Checked.forTools tools check') := by
  have hfields (check : Tool → Checked α) :
      (Checked.forTools tools check).fields = tools.flatMap fun t => (check t).fields :=
    List.map_flatMap
  refine ⟨fun hspared => ?_, fun hspared => funext fun t => (h t).value hspared, ?_,
    fun _ => trivial⟩
  · rw [hfields, hfields, funext fun t => (h t).fields_eq hspared]
  · rw [hfields, hfields]
    clear hfields
    induction tools with
    | nil => exact Nat.le_refl _
    | cons t tools ih =>
      rw [List.flatMap_cons, List.flatMap_cons, List.length_append, List.length_append]
      exact Nat.add_le_add (h t).length_le ih

end Grows

/-- Spaces around what is given for a setting make it a problem where it has to be given exactly. -/
theorem Trims.grows {spared : Prop} (default : α) (htrims : Trims rule exact)
    (hpadded : PaddedUnder names members members')
    (hspared : spared → Spares names rule exact members members') :
    Grows spared (Spares names rule exact members members') Eq
      (setting names default rule members) (setting names default rule members') := by
  rcases setting_cases default htrims hpadded with ⟨hspares, hvalue, hfields⟩ | ⟨hnot, hnone, hsome⟩
  · exact ⟨fun _ => hfields, fun _ => hvalue.symm, (congrArg List.length hfields).ge,
      fun _ => hspares⟩
  · refine ⟨fun h => absurd (hspared h) hnot, fun h => absurd (hspared h) hnot, ?_, fun h => ?_⟩
    · rw [hnone]
      exact Nat.zero_le _
    · rw [hnone] at h
      exact absurd (List.length_eq_zero_iff.mp h) hsome

/-- The words for the reporters. -/
abbrev reporterWords : List (Text × Biome.Reporter) :=
  [("github", .annotations), ("json", .document)]

/-- The spaces spare all that has to be given exactly but for the directory of the tools: truth
values, the word for a reporter, and a time limit with an underscore. -/
structure WordsSpared (members members' : Table Json) : Prop where
  reporter : Spares ["biome-reporter", "biome_reporter"] (oneOf reporterWords) anything members
    members'
  stats : Spares ["stats"] truth anything members members'
  silent : Spares ["silent"] truth anything members members'
  cache : Spares ["cache"] truth anything members members'
  strict : Spares ["strict"] truth anything members members'
  timeout : Spares ["timeout"] (nullable real) underscored members members'

/-- Settings without the directory of the tools. -/
def withoutBinDir (s : Settings) : Settings := { s with binDir := none }

/-- The directory of the tools apart, spaces around the values change no setting and make no problem
where the words are spared. Where they are not, there are more problems than before. -/
theorem check_padded (d : Path)
    (h : ∀ name : Text, name ≠ "bin_dir" →
      Option.Rel Padded (get? name members) (get? name members'))
    (hbinDir : (setting ["bin_dir"] none (nullable path) members').fields =
      (setting ["bin_dir"] none (nullable path) members).fields) :
    Grows (WordsSpared members members') (WordsSpared members members')
      (fun s s' => s'.withoutBinDir = s.withoutBinDir) (check d members) (check d members') := by
  have hunder {names : List Text} (hnames : ∀ name ∈ names, name ≠ "bin_dir") :
      PaddedUnder names members members' := fun name hname => h name (hnames name hname)
  have hplain {α : Type} {names : List Text} {rule : Rule α} {default : α}
      (htrims : Trims rule nothing) (hnames : ∀ name ∈ names, name ≠ "bin_dir") :
      Grows (WordsSpared members members') (Spares names rule nothing members members') Eq
        (setting names default rule members) (setting names default rule members') :=
    htrims.grows default (hunder hnames) fun _ => spares_nothing
  have hreporter : Trims (oneOf reporterWords) anything := trims_oneOf (by decide)
  unfold check
  refine (hplain trims_path (by decide +kernel)).bind fun phpRoot phpRoot' hphpRoot => ?_
  refine (hplain trims_path (by decide +kernel)).bind fun jsRoot jsRoot' hjsRoot => ?_
  refine (Grows.of_fields_eq hbinDir).bind fun binDir binDir' _ => ?_
  refine (hplain trims_text (by decide +kernel)).bind fun phpDir phpDir' hphpDir => ?_
  refine (hplain trims_text (by decide +kernel)).bind fun jsDir jsDir' hjsDir => ?_
  refine (hplain trims_text (by decide +kernel)).bind fun files files' hfiles => ?_
  refine (hplain trims_text (by decide +kernel)).bind fun bun bun' hbun => ?_
  refine (hplain trims_text (by decide +kernel)).bind fun node node' hnode => ?_
  refine (Grows.forTools Tool.all fun t =>
    hplain trims_switch (by cases t <;> decide +kernel)).bind fun enabled enabled' henabled => ?_
  refine (Grows.forTools Tool.all fun t =>
    hplain trims_text (by cases t <;> decide +kernel)).bind fun rules rules' hrules => ?_
  refine (hreporter.grows _ (hunder (by decide +kernel)) WordsSpared.reporter).bind
    fun reporter reporter' hreporter => ?_
  refine (trims_truth.grows _ (hunder (by decide +kernel)) WordsSpared.stats).bind
    fun stats stats' hstats => ?_
  refine (hplain trims_lastPolicy (by decide +kernel)).bind fun last last' hlast => ?_
  refine (trims_truth.grows _ (hunder (by decide +kernel)) WordsSpared.silent).bind
    fun silent silent' hsilent => ?_
  refine (trims_truth.grows _ (hunder (by decide +kernel)) WordsSpared.cache).bind
    fun cache cache' hcache => ?_
  refine (trims_truth.grows _ (hunder (by decide +kernel)) WordsSpared.strict).bind
    fun strict strict' hstrict => ?_
  refine (hplain trims_whole (by decide +kernel)).bind fun verbosity verbosity' hverbosity => ?_
  refine (trims_real.nullable.grows _ (hunder (by decide +kernel)) WordsSpared.timeout).bind
    fun timeout timeout' htimeout => ?_
  refine .pure (fun hw => ?_) ?_
  · rw [hphpRoot hw, hjsRoot hw, hphpDir hw, hjsDir hw, hfiles hw, hbun hw, hnode hw, henabled hw,
      hrules hw, hreporter hw, hstats hw, hlast hw, hsilent hw, hcache hw, hstrict hw,
      hverbosity hw, htimeout hw]
    rfl
  · intro timeout _ strict cache silent _ stats reporter _ _ _ _ _ _ _ _ _ _
    exact ⟨reporter, stats, silent, cache, strict, timeout⟩

end Settings

end LintReport
