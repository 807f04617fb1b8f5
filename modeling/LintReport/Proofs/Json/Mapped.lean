import LintReport.Json.Basic
import LintReport.Proofs.Text.Table

/-!
Values that are changed in one place, or that lose what stands there. Under the other names stands
what stood there before, and a value that does not have the place stays as it is.
-/
namespace LintReport

theorem Table.get?_map_if {α : Type} (name key : Text) (f : α → α) (table : Table α) :
    get? key (table.map fun m => if m.1 = name then (m.1, f m.2) else m) =
      (get? key table).map (if key = name then f else id) := by
  induction table with
  | nil => rfl
  | cons m table ih =>
    rw [List.map_cons, get?, get?, ih]
    by_cases hname : m.1 = name
    · by_cases hkey : m.1 = key
      · simp [hname, ← hkey]
      · simp [hname, hname ▸ hkey]
    · by_cases hkey : m.1 = key
      · simp [hkey, hkey ▸ hname]
      · simp [hname, hkey]

namespace Json

/-- A text under a function. -/
def mapText (f : Text → Text) : Json → Json
  | string s => string (f s)
  | v => v

/-- The items of an array under a function. -/
def mapItems (f : Json → Json) : Json → Json
  | array items => array (items.map f)
  | v => v

/-- The member of a name under a function. -/
def mapMember (name : Text) (f : Json → Json) : Json → Json
  | object members => object (members.map fun m => if m.1 = name then (m.1, f m.2) else m)
  | v => v

/-- A value without the member of a name. -/
def without (name : Text) : Json → Json
  | object members => object (members.filter fun m => m.1 ≠ name)
  | v => v

/-- The names of an object under a function. -/
def mapNames (f : Text → Text) : Json → Json
  | object members => object (members.map fun m => (f m.1, m.2))
  | v => v

variable {f : Json → Json} {name key : Text}

theorem member?_mapMember (name key : Text) (f : Json → Json) (v : Json) :
    (v.mapMember name f).member? key = (v.member? key).map (if key = name then f else id) := by
  cases v with
  | object members => exact Table.get?_map_if name key f members
  | _ => rfl

theorem member_mapMember_of_ne (h : key ≠ name) (f : Json → Json) (v : Json) :
    (v.mapMember name f).member key = v.member key := by
  rw [member, member?_mapMember, if_neg h, Option.map_id, id, member]

theorem member_mapMember_self (hf : f null = null) (name : Text) (v : Json) :
    (v.mapMember name f).member name = f (v.member name) := by
  rw [member, member?_mapMember, if_pos rfl, member]
  cases v.member? name with
  | none => exact hf.symm
  | some found => rfl

theorem member?_without (name key : Text) (v : Json) :
    (v.without name).member? key = if key = name then none else v.member? key := by
  cases v with
  | object members =>
    have hfilter := Table.get?_filter (fun name' => decide (name' ≠ name)) key members
    by_cases hkey : key = name
    · rw [if_pos hkey]
      exact hfilter.trans (if_neg (by simpa using hkey))
    · rw [if_neg hkey]
      exact hfilter.trans (if_pos (by simpa using hkey))
  | _ => exact (ite_self none).symm

theorem member_without_of_ne (h : key ≠ name) (v : Json) :
    (v.without name).member key = v.member key := by
  rw [member, member?_without, if_neg h, member]

theorem member_without_self (name : Text) (v : Json) : (v.without name).member name = null := by
  rw [member, member?_without, if_pos rfl, Option.getD_none]

end Json

end LintReport
