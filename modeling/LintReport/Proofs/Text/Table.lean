import Mathlib.Data.List.Forall2
import Mathlib.Data.List.Induction
import Mathlib.Data.List.Nodup
import LintReport.Text.Table

/-!
Tables that are made entry by entry. Nothing is in them but what was put in, pairs with names of
their own stay as they are, and leaving entries out does not depend on when it is done.
-/
namespace LintReport.Table

variable {α β : Type} {name key : Text} {kept : List Text} {a : α} {entry : Text × α}
  {table : Table α} {pairs : List (Text × α)}

theorem ofList_concat (pairs : List (Text × α)) (entry : Text × α) :
    ofList (pairs ++ [entry]) = insert entry.1 entry.2 (ofList pairs) :=
  List.foldl_append

theorem mem_of_get? (h : get? name table = some a) : (name, a) ∈ table := by
  induction table with
  | nil => cases h
  | cons entry table ih =>
    rw [get?] at h
    split at h
    · next hname =>
      obtain ⟨key, value⟩ := entry
      cases h
      exact hname ▸ List.mem_cons_self
    · exact List.mem_cons_of_mem _ (ih h)

theorem isNone_get? : (get? name table).isNone = true ↔ name ∉ table.map Prod.fst := by
  induction table with
  | nil => simp [get?]
  | cons entry table ih =>
    rw [get?]
    split
    · next hname => simp [hname]
    · next hname => rw [ih, List.map_cons, List.mem_cons, or_iff_right (Ne.symm hname)]

theorem mem_of_mem_insert (h : entry ∈ insert name a table) :
    entry = (name, a) ∨ entry ∈ table := by
  induction table with
  | nil => exact .inl (List.mem_singleton.mp h)
  | cons first table ih =>
    rw [insert] at h
    split at h
    · exact (List.mem_cons.mp h).imp id (List.mem_cons_of_mem _)
    · rcases List.mem_cons.mp h with rfl | h
      · exact .inr List.mem_cons_self
      · exact (ih h).imp id (List.mem_cons_of_mem _)

/-- A table holds nothing but what was put in. -/
theorem mem_of_mem_ofList (h : entry ∈ ofList pairs) : entry ∈ pairs := by
  induction pairs using List.reverseRecOn with
  | nil => cases h
  | append_singleton pairs last ih =>
    rw [ofList_concat] at h
    rcases mem_of_mem_insert h with rfl | h
    · exact List.mem_append_right _ List.mem_cons_self
    · exact List.mem_append_left _ (ih h)

theorem insert_of_not_mem (h : name ∉ table.map Prod.fst) (a : α) :
    insert name a table = table ++ [(name, a)] := by
  induction table with
  | nil => rfl
  | cons entry table ih =>
    obtain ⟨hne, h⟩ := not_or.mp (mt List.mem_cons.mpr h)
    rw [insert, if_neg (Ne.symm hne), ih h, List.cons_append]

theorem names_insert_of_mem (h : name ∈ table.map Prod.fst) (a : α) :
    (insert name a table).map Prod.fst = table.map Prod.fst := by
  induction table with
  | nil => cases h
  | cons entry table ih =>
    rw [insert]
    by_cases hname : entry.1 = name
    · rw [if_pos hname, List.map_cons, List.map_cons, hname]
    · have hrest : name ∈ table.map Prod.fst :=
        (List.mem_cons.mp h).resolve_left (Ne.symm hname)
      rw [if_neg hname, List.map_cons, List.map_cons, ih hrest]

/-- Under a name that only one entry has stands the value of that entry. -/
theorem get?_of_mem (hnodup : (table.map Prod.fst).Nodup) (h : (name, a) ∈ table) :
    get? name table = some a := by
  induction table with
  | nil => cases h
  | cons entry table ih =>
    obtain ⟨hfirst, hnodup⟩ := List.nodup_cons.mp hnodup
    rcases List.mem_cons.mp h with rfl | h
    · rw [get?, if_pos rfl]
    · have hne : entry.1 ≠ name := fun hname => hfirst (hname ▸ List.mem_map_of_mem h)
      rw [get?, if_neg hne, ih hnodup h]

/-- The members of an object stay as they are if each has its own name. -/
theorem ofList_eq (h : (pairs.map Prod.fst).Nodup) : ofList pairs = pairs := by
  induction pairs using List.reverseRecOn with
  | nil => rfl
  | append_singleton pairs last ih =>
    rw [List.map_append, List.nodup_append] at h
    rw [ofList_concat, ih h.1, insert_of_not_mem]
    exact fun hmem => h.2.2 _ hmem _ (List.mem_cons_self ..) rfl

theorem mem_names_insert :
    key ∈ (insert name a table).map Prod.fst ↔ key = name ∨ key ∈ table.map Prod.fst := by
  induction table with
  | nil => simp [insert]
  | cons entry table ih =>
    rw [insert]
    split
    · next hname => simp [hname]
    · rw [List.map_cons, List.mem_cons, ih, List.map_cons, List.mem_cons]
      exact or_left_comm

theorem mem_names_ofList : key ∈ (ofList pairs).map Prod.fst ↔ key ∈ pairs.map Prod.fst := by
  induction pairs using List.reverseRecOn with
  | nil => rfl
  | append_singleton pairs last ih =>
    rw [ofList_concat, mem_names_insert, ih, List.map_append, List.mem_append, or_comm]
    exact or_congr_right List.mem_singleton.symm

/-- Under a name stands the last value that was put in for it. -/
theorem get?_ofList (name : Text) (pairs : List (Text × α)) :
    get? name (ofList pairs) =
      ((pairs.filter fun entry => entry.1 = name).getLast?).map Prod.snd := by
  induction pairs using List.reverseRecOn with
  | nil => rfl
  | append_singleton pairs last ih =>
    rw [ofList_concat, get?_insert, List.filter_append]
    by_cases hlast : last.1 = name
    · rw [if_pos hlast, List.filter_cons_of_pos (by simp [hlast]), List.filter_nil,
        List.getLast?_concat, Option.map_some]
    · rw [if_neg hlast, ih, List.filter_cons_of_neg (by simp [hlast]), List.filter_nil,
        List.append_nil]

/-- The value under a name is that of the last pair of that name. -/
theorem get?_ofList_eq_some_iff :
    get? name (ofList pairs) = some a ↔
      ∃ before after, pairs = before ++ (name, a) :: after ∧ name ∉ after.map Prod.fst := by
  rw [get?_ofList]
  constructor
  · intro h
    obtain ⟨⟨key, value⟩, hlast, rfl⟩ := Option.map_eq_some_iff.mp h
    obtain ⟨kept, hkept⟩ := List.getLast?_eq_some_iff.mp hlast
    obtain ⟨before, rest, rfl, -, hrest⟩ := List.filter_eq_append_iff.mp hkept
    obtain ⟨between, after, rfl, -, hkey, hafter⟩ := List.filter_eq_cons_iff.mp hrest
    obtain rfl : key = name := of_decide_eq_true hkey
    refine ⟨before ++ between, after, (List.append_assoc ..).symm, fun hmem => ?_⟩
    obtain ⟨entry, hentry, hname⟩ := List.mem_map.mp hmem
    exact List.filter_eq_nil_iff.mp hafter entry hentry (decide_eq_true hname)
  · rintro ⟨before, after, rfl, hafter⟩
    have hnone : (after.filter fun entry => entry.1 = name) = [] := by
      apply List.filter_eq_nil_iff.mpr
      intro entry hentry hname
      exact hafter (of_decide_eq_true hname ▸ List.mem_map_of_mem hentry)
    rw [List.filter_append, List.filter_cons_of_pos (by simp), hnone, List.getLast?_concat,
      Option.map_some]

theorem nodup_names_insert (h : (table.map Prod.fst).Nodup) (name : Text) (a : α) :
    ((insert name a table).map Prod.fst).Nodup := by
  by_cases hname : name ∈ table.map Prod.fst
  · rwa [names_insert_of_mem hname]
  · rw [insert_of_not_mem hname, List.map_append]
    exact List.Nodup.append h (List.nodup_singleton name) (List.disjoint_singleton.mpr hname)

/-- No name comes up twice in a table. -/
theorem nodup_names_ofList (pairs : List (Text × α)) : ((ofList pairs).map Prod.fst).Nodup := by
  induction pairs using List.reverseRecOn with
  | nil => exact List.nodup_nil
  | append_singleton pairs last ih =>
    rw [ofList_concat]
    exact nodup_names_insert ih last.1 last.2

/-! ### Entries with certain names -/

/-- Which entries are kept is only a matter of their names here. -/
theorem get?_filter (p : Text → Bool) (name : Text) (table : Table α) :
    get? name (table.filter fun entry => p entry.1) = if p name then get? name table else none := by
  induction table with
  | nil => simp [get?]
  | cons entry table ih =>
    by_cases hentry : p entry.1 = true
    · rw [List.filter_cons_of_pos (by simp [hentry]), get?, get?, ih]
      by_cases hname : entry.1 = name
      · rw [if_pos hname, if_pos hname, if_pos (hname ▸ hentry)]
      · rw [if_neg hname, if_neg hname]
    · rw [List.filter_cons_of_neg (by simp [hentry]), get?, ih]
      by_cases hname : entry.1 = name
      · rw [if_neg (hname ▸ hentry), if_neg (hname ▸ hentry)]
      · rw [if_neg hname]

/-- The entries with one of the names. -/
def only (kept : List Text) (table : Table α) : Table α :=
  table.filter fun entry => kept.contains entry.1

theorem get?_only (h : name ∈ kept) (table : Table α) :
    get? name (only kept table) = get? name table := by
  unfold only
  rw [get?_filter kept.contains, if_pos (List.contains_iff_mem.mpr h)]

theorem only_insert (name : Text) (a : α) (table : Table α) :
    only kept (insert name a table) =
      if name ∈ kept then insert name a (only kept table) else only kept table := by
  induction table with
  | nil => by_cases h : name ∈ kept <;> simp [only, insert, h]
  | cons entry table ih =>
    by_cases hname : entry.1 = name
    · by_cases h : name ∈ kept <;> simp [only, insert, hname, h]
    · rw [insert, if_neg hname]
      unfold only at ih ⊢
      by_cases hentry : entry.1 ∈ kept
      · rw [List.filter_cons_of_pos (by simp [hentry]), ih,
          List.filter_cons_of_pos (by simp [hentry])]
        split
        · rw [insert, if_neg hname]
        · rfl
      · rw [List.filter_cons_of_neg (by simp [hentry]), ih,
          List.filter_cons_of_neg (by simp [hentry])]

theorem only_concat (pairs : List (Text × α)) (last : Text × α) :
    only kept (pairs ++ [last]) =
      if last.1 ∈ kept then only kept pairs ++ [last] else only kept pairs := by
  by_cases h : last.1 ∈ kept <;> simp [only, h]

/-- Other entries may be left out before a table is made or afterwards. -/
theorem only_ofList (pairs : List (Text × α)) :
    only kept (ofList pairs) = ofList (only kept pairs) := by
  induction pairs using List.reverseRecOn with
  | nil => rfl
  | append_singleton pairs last ih =>
    rw [ofList_concat, only_insert, ih, only_concat]
    split
    · rw [ofList_concat]
    · rfl

/-! ### Tables entry by entry -/

/-- Entries of one name with related values. -/
def Entries (R : α → β → Prop) (m : Text × α) (m' : Text × β) : Prop := m.1 = m'.1 ∧ R m.2 m'.2

variable {R : α → β → Prop} {table' : Table β} {pairs' : List (Text × β)}

theorem forall₂_insert {a' : β} (ha : R a a')
    (h : List.Forall₂ (Entries R) table table') :
    List.Forall₂ (Entries R) (insert name a table) (insert name a' table') := by
  induction h with
  | nil => exact .cons ⟨rfl, ha⟩ .nil
  | @cons m m' table table' hm htable ih =>
    rw [insert, insert, ← hm.1]
    split
    · exact .cons ⟨rfl, ha⟩ htable
    · exact .cons hm ih

theorem forall₂_ofList (h : List.Forall₂ (Entries R) pairs pairs') :
    List.Forall₂ (Entries R) (ofList pairs) (ofList pairs') := by
  refine List.rel_foldl (fun table table' htable m m' hm => ?_) List.Forall₂.nil h
  rw [hm.1]
  exact forall₂_insert hm.2 htable

theorem forall₂_entries_iff :
    List.Forall₂ (Entries R) table table' ↔ table.map Prod.fst = table'.map Prod.fst ∧
      List.Forall₂ R (table.map Prod.snd) (table'.map Prod.snd) := by
  constructor
  · intro h
    induction h with
    | nil => exact ⟨rfl, .nil⟩
    | cons hm _ ih => exact ⟨congrArg₂ List.cons hm.1 ih.1, .cons hm.2 ih.2⟩
  · rintro ⟨hnames, hvalues⟩
    induction table generalizing table' with
    | nil =>
      rw [List.map_eq_nil_iff.mp hnames.symm]
      exact .nil
    | cons m table ih =>
      cases table' with
      | nil => cases hnames
      | cons m' table' =>
        obtain ⟨hname, hnames⟩ := List.cons.inj hnames
        cases hvalues with
        | cons hvalue hvalues => exact .cons ⟨hname, hvalue⟩ (ih hnames hvalues)

theorem get?_forall₂ (name : Text) (h : List.Forall₂ (Entries R) table table') :
    Option.Rel R (get? name table) (get? name table') := by
  induction h with
  | nil => exact .none
  | @cons m m' table table' hm htable ih =>
    rw [get?, get?, ← hm.1]
    split
    · exact .some hm.2
    · exact ih

end LintReport.Table
