import LintReport.Proofs.Path.Resolved
import LintReport.Workspace.Basic

/-!
Names of files. A path is resolved by looking its names up, one after the other, before any double
dots take them back. So whether it can be resolved shows in its spelling: in every unit of it, and
in nothing else.
-/
namespace LintReport

variable {d p q : Path} {name s : Text} {names : List Text}

/-- No unit is a null character, and no half of a surrogate pair is one that stands for no byte. -/
def Text.IsNameable (s : Text) : Prop :=
  ∀ c ∈ s, c ≠ .scalar '\x00' ∧ (c.isSurrogate = true → c.isFileByte = true)

instance (s : Text) : Decidable s.IsNameable :=
  inferInstanceAs (Decidable
    (∀ c ∈ s, c ≠ .scalar '\x00' ∧ (c.isSurrogate = true → c.isFileByte = true)))

theorem Text.unnameable?_eq_none_iff (position : Nat) : unnameable? position s = none ↔
    ∀ c ∈ s, c.isSurrogate = true → c.isFileByte = true := by
  induction s generalizing position with
  | nil => exact iff_of_true rfl nofun
  | cons c s ih =>
    rw [List.forall_mem_cons]
    cases c with
    | scalar c =>
      rw [unnameable?, ih]
      exact (and_iff_right nofun).symm
    | surrogate half =>
      rw [unnameable?]
      split
      · next hbyte =>
        rw [ih]
        exact (and_iff_right fun _ => hbyte).symm
      · next hbyte => exact iff_of_false nofun fun h => hbyte (h.1 rfl)

/-- The names in a spelling hold all that could be wrong with it. -/
theorem Path.isNameable_names_iff :
    (∀ name ∈ (ofText s).names, name.IsNameable) ↔ s.IsNameable := by
  constructor
  · intro h c hc
    by_cases hslash : c = .scalar '/'
    · subst hslash
      decide
    · obtain ⟨part, hpart, hmem⟩ := Text.exists_mem_fields hc hslash
      by_cases hdot : part = [.scalar '.']
      · rw [hdot, List.mem_singleton] at hmem
        subst hmem
        decide
      · have hname : part ∈ (ofText s).names :=
          List.mem_filter.mpr ⟨hpart, decide_eq_true ⟨List.ne_nil_of_mem hmem, hdot⟩⟩
        exact h part hname c hmem
  · intro h name hname c hc
    have hinside : name <:+: Text.join [.scalar '/'] (Text.fields (.scalar '/') s) :=
      Text.infix_join (List.mem_filter.mp hname).1
    rw [Text.join_fields] at hinside
    exact h c (hinside.subset hc)

namespace Workspace

theorem nameFault?_eq_none_iff (position : Nat) :
    nameFault? position name = none ↔ name.IsNameable := by
  have hsplit : name.IsNameable ↔ .scalar '\x00' ∉ name ∧
      ∀ c ∈ name, c.isSurrogate = true → c.isFileByte = true :=
    ⟨fun h => ⟨fun hnul => (h _ hnul).1 rfl, fun c hc => (h c hc).2⟩,
      fun h c hc => ⟨fun hnul => h.1 (hnul ▸ hc), h.2 c hc⟩⟩
  rw [hsplit, ← Text.unnameable?_eq_none_iff position, nameFault?]
  cases Text.unnameable? position name with
  | some fault => exact iff_of_false nofun fun h => nomatch h.2
  | none => simp

theorem lookupFault?_eq_none_iff (d before : Path) :
    lookupFault? d before names = none ↔ ∀ name ∈ names, name.IsNameable := by
  induction names generalizing before with
  | nil => exact iff_of_true rfl nofun
  | cons name names ih =>
    rw [lookupFault?, Option.or_eq_none_iff, nameFault?_eq_none_iff, ih, List.forall_mem_cons]

/-- A path can be resolved if its spelling has nothing wrong, and then it is resolved as ever. -/
theorem resolve?_ofText_eq_ok_iff :
    resolve? d (.ofText s) = .ok q ↔ s.IsNameable ∧ Path.resolve d (.ofText s) = q := by
  rw [← Path.isNameable_names_iff,
    ← lookupFault?_eq_none_iff d { Path.ofText s with names := [] }, resolve?]
  cases lookupFault? d { Path.ofText s with names := [] } (Path.ofText s).names with
  | some fault => exact iff_of_false nofun fun h => nomatch h.1
  | none => simp

/-- Double dots do not hide a name that is no name of a file. -/
example : resolve? ⟨.slash, ["project"]⟩ (.ofText "a\x00b/..") = .error .nulInPath :=
  rfl

end Workspace

end LintReport
