import LintReport.Json.Basic
import LintReport.Proofs.Text.Table

/-!
Thinned values. A value is thinned when members are left out of objects in it that have both a
source and what ends a source. Members under the names that are kept stay, and what lies under them
is thinned in turn. A value without such objects stays as it is.
-/
namespace LintReport.Json

open Table (only Entries)

/-- The name of the first member that is left out. -/
def sourceName : Text := "source"

/-- The name of the member before which nothing more is left out. -/
def rulesName : Text := "usedDeprecatedRules"

/-- Members could be left out among such members. -/
def HasSource (ms : List (Text × Json)) : Prop :=
  sourceName ∈ ms.map Prod.fst ∧ rulesName ∈ ms.map Prod.fst

/-- The second value is the first one, in which members under other names may be missing. -/
inductive Thinned (kept : List Text) : Json → Json → Prop
  | same (v : Json) : Thinned kept v v
  | array {vs vs' : List Json} (h : List.Forall₂ (Thinned kept) vs vs') :
      Thinned kept (array vs) (array vs')
  | object {ms ms' : Table Json} (hnames : ms.map Prod.fst = ms'.map Prod.fst)
      (hvalues : List.Forall₂ (Thinned kept) (ms.map Prod.snd) (ms'.map Prod.snd)) :
      Thinned kept (object ms) (object ms')
  | cut {ms ms' : Table Json} (hsource : HasSource ms)
      (hnames : (only kept ms).map Prod.fst = (only kept ms').map Prod.fst)
      (hvalues : List.Forall₂ (Thinned kept) ((only kept ms).map Prod.snd)
        ((only kept ms').map Prod.snd)) : Thinned kept (object ms) (object ms')

/-- There is no object in the value from which members could be left out. -/
inductive Whole : Json → Prop
  | null : Whole null
  | bool (b : Bool) : Whole (bool b)
  | int (n : Int) : Whole (int n)
  | float (x : Binary64) : Whole (float x)
  | string (s : Text) : Whole (string s)
  | array {vs : List Json} (h : ∀ v ∈ vs, Whole v) : Whole (array vs)
  | object {ms : Table Json} (hsource : ¬ HasSource ms) (h : ∀ m ∈ ms, Whole m.2) :
      Whole (object ms)

variable {kept : List Text} {name : Text} {v v' : Json} {vs vs' : List Json} {ms ms' : Table Json}

theorem Thinned.exists_items (h : Thinned kept (Json.array vs) v') :
    ∃ vs', v' = Json.array vs' ∧ List.Forall₂ (Thinned kept) vs vs' := by
  cases h with
  | same => exact ⟨vs, rfl, List.forall₂_same.mpr fun v _ => .same v⟩
  | array h => exact ⟨_, rfl, h⟩

theorem Thinned.member (h : Thinned kept v v') (hname : name ∈ kept) :
    Thinned kept (v.member name) (v'.member name) := by
  have hfound {found found' : Option Json} (h : Option.Rel (Thinned kept) found found') :
      Thinned kept (found.getD .null) (found'.getD .null) := by
    cases h with
    | none => exact .same _
    | some h => exact h
  cases h with
  | same => exact .same _
  | array => exact .same _
  | object hnames hvalues =>
    exact hfound (Table.get?_forall₂ name (Table.forall₂_entries_iff.mpr ⟨hnames, hvalues⟩))
  | cut _ hnames hvalues =>
    have hget := Table.get?_forall₂ name (Table.forall₂_entries_iff.mpr ⟨hnames, hvalues⟩)
    rw [Table.get?_only hname, Table.get?_only hname] at hget
    exact hfound hget

theorem map_eq_of_forall₂ {α β : Type} {R : α → α → Prop} {f g : α → β} {xs ys : List α}
    (h : List.Forall₂ R xs ys) (heq : ∀ x ∈ xs, ∀ y, R x y → g y = f x) : ys.map g = xs.map f := by
  induction h with
  | nil => rfl
  | cons hxy _ ih =>
    obtain ⟨hx, hxs⟩ := List.forall_mem_cons.mp heq
    rw [List.map_cons, List.map_cons, hx _ hxy, ih hxs]

/-- A value stays as it is if there is nothing to leave out. -/
theorem Whole.eq_of_thinned (hv : Whole v) (h : Thinned kept v v') : v' = v := by
  induction hv generalizing v' with
  | array _ ih =>
    cases h with
    | same => rfl
    | array h =>
      have hitems := map_eq_of_forall₂ (f := id) (g := id) h fun v hv _ h => ih v hv h
      rw [List.map_id, List.map_id] at hitems
      exact congrArg Json.array hitems
  | @object ms hsource _ ih =>
    cases h with
    | same => rfl
    | object hnames hvalues =>
      have hentries := Table.forall₂_entries_iff.mpr ⟨hnames, hvalues⟩
      have hmembers := map_eq_of_forall₂ (f := id) (g := id) hentries fun m hm _ h =>
        Prod.ext h.1.symm (ih m hm h.2)
      rw [List.map_id, List.map_id] at hmembers
      exact congrArg Json.object hmembers
    | cut h => exact absurd h hsource
  | _ =>
    cases h
    rfl

/-- There is nothing in a blank value. -/
theorem whole_of_isBlank (h : v.isBlank = true) : Whole v := by
  cases v with
  | null => exact .null
  | bool b => exact .bool b
  | int n => exact .int n
  | float x => exact .float x
  | string s => exact .string s
  | array vs =>
    rw [List.isEmpty_iff.mp h]
    exact .array (by simp)
  | object ms =>
    rw [List.isEmpty_iff.mp h]
    exact .object (by simp [HasSource]) (by simp)

/-! ### Members one by one -/

/-- The second list of members is the first one, in which values may be thinned and members may be
missing. They are missing from a source up to what ends it; the flag says whether a source stood
before the lists. -/
inductive ThinnedMembers (kept : List Text) :
    (inCut : Bool) → List (Text × Json) → List (Text × Json) → Prop
  | nil : ThinnedMembers kept false [] []
  | keep {inCut : Bool} {name : Text} {v v' : Json} {ms ms' : List (Text × Json)}
      (hname : inCut = true → name = rulesName) (hv : Thinned kept v v')
      (h : ThinnedMembers kept false ms ms') :
      ThinnedMembers kept inCut ((name, v) :: ms) ((name, v') :: ms')
  | leave {inCut : Bool} {name : Text} (v : Json) {ms ms' : List (Text × Json)}
      (hname : inCut = false → name = sourceName) (hkept : name ∉ kept)
      (h : ThinnedMembers kept true ms ms') : ThinnedMembers kept inCut ((name, v) :: ms) ms'

variable {inCut : Bool}

theorem ThinnedMembers.only (h : ThinnedMembers kept inCut ms ms') :
    List.Forall₂ (Entries (Thinned kept)) (only kept ms) (only kept ms') := by
  induction h with
  | nil => exact .nil
  | @keep _ name v v' ms ms' _ hv _ ih =>
    by_cases hname : name ∈ kept
    · rw [Table.only, Table.only, List.filter_cons_of_pos (by simp [hname]),
        List.filter_cons_of_pos (by simp [hname])]
      exact .cons ⟨rfl, hv⟩ ih
    · simpa [Table.only, hname] using ih
  | leave v _ hkept _ ih =>
    rw [Table.only, List.filter_cons_of_neg (by simp [hkept])]
    exact ih

theorem ThinnedMembers.mem_rulesName (h : ThinnedMembers kept inCut ms ms') (hcut : inCut = true) :
    rulesName ∈ ms.map Prod.fst := by
  induction h with
  | nil => cases hcut
  | keep hname => exact hname hcut ▸ List.mem_cons_self
  | leave _ _ _ _ ih => exact List.mem_cons_of_mem _ (ih rfl)

/-- Nothing is missing unless there is a source, and what ends it. -/
theorem ThinnedMembers.forall₂ (h : ThinnedMembers kept inCut ms ms') (hcut : inCut = false)
    (hsource : ¬ HasSource ms) : List.Forall₂ (Entries (Thinned kept)) ms ms' := by
  induction h with
  | nil => exact .nil
  | keep _ hv _ ih =>
    exact .cons ⟨rfl, hv⟩ (ih rfl fun h =>
      hsource ⟨List.mem_cons_of_mem _ h.1, List.mem_cons_of_mem _ h.2⟩)
  | leave _ hname _ h =>
    exact absurd ⟨hname hcut ▸ List.mem_cons_self, List.mem_cons_of_mem _ (h.mem_rulesName rfl)⟩
      hsource

/-- Leaving members out before their object is made leaves them out of the object. -/
theorem ThinnedMembers.object (h : ThinnedMembers kept false ms ms') :
    Thinned kept (.object (Table.ofList ms)) (.object (Table.ofList ms')) := by
  by_cases hsource : HasSource ms
  · have hentries := Table.forall₂_ofList h.only
    rw [← Table.only_ofList, ← Table.only_ofList] at hentries
    obtain ⟨hnames, hvalues⟩ := Table.forall₂_entries_iff.mp hentries
    exact .cut ⟨Table.mem_names_ofList.mpr hsource.1, Table.mem_names_ofList.mpr hsource.2⟩ hnames
      hvalues
  · obtain ⟨hnames, hvalues⟩ :=
      Table.forall₂_entries_iff.mp (Table.forall₂_ofList (h.forall₂ rfl hsource))
    exact .object hnames hvalues

end LintReport.Json
