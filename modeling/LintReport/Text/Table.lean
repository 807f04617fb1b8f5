import LintReport.Text.Basic

/-!
Tables from texts to values, in the order in which the texts first came up. A later value takes
the place of an earlier one.
-/
namespace LintReport

/-- A table with every text at most once. -/
abbrev Table (α : Type) := List (Text × α)

namespace Table

variable {α : Type}

def get? (name : Text) : Table α → Option α
  | [] => none
  | entry :: table => if entry.1 = name then some entry.2 else get? name table

def insert (name : Text) (value : α) : Table α → Table α
  | [] => [(name, value)]
  | entry :: table =>
    if entry.1 = name then (name, value) :: table else entry :: insert name value table

/-- The table of a list of pairs, put in one after the other. -/
def ofList (pairs : List (Text × α)) : Table α :=
  pairs.foldl (fun table entry => insert entry.1 entry.2 table) []

theorem get?_insert (name key : Text) (value : α) (table : Table α) :
    get? key (insert name value table) = if name = key then some value else get? key table := by
  induction table with
  | nil => simp [insert, get?]
  | cons entry table ih =>
    by_cases h : entry.1 = name
    · rw [insert, if_pos h]
      by_cases hk : name = key
      · simp [get?, hk]
      · simp [get?, h, hk]
    · rw [insert, if_neg h, get?, get?, ih]
      by_cases hk : entry.1 = key
      · have : name ≠ key := fun e => h (hk.trans e.symm)
        simp [hk, this]
      · simp [hk]

end Table

end LintReport
