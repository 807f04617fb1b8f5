import LintReport.Tool.Command
import LintReport.Proofs.Path.Resolved

/-!
Commands tell the tools apart. A tool is started from a file whose last name is its own, and where a
script follows an interpreter, a PHP tool has an argument, so no two tools have a command in common.
-/
namespace LintReport

namespace Path

open Text (fields_ne_nil fields_suffix)

theorem baseName_append (s rest : Text) :
    baseName (s ++ .scalar '/' :: rest) = baseName rest := by
  obtain ⟨part, parts, hfields⟩ := fields_suffix (.scalar '/') s rest
  obtain ⟨last, hlast⟩ := Option.ne_none_iff_exists'.mp
    (mt List.getLast?_eq_none_iff.mp (fields_ne_nil (.scalar '/') rest))
  rw [baseName, hfields, baseName, List.getLastD_eq_getLast?, List.getLast?_append, hlast,
    List.getLastD_eq_getLast?, hlast, Option.some_or]

theorem join_concat (names : List Text) (name : Text) :
    names = [] ∨ ∃ s, Text.join [.scalar '/'] (names ++ [name]) = s ++ .scalar '/' :: name := by
  induction names with
  | nil => exact Or.inl rfl
  | cons first names ih =>
    right
    rcases ih with rfl | ⟨s, hs⟩
    · exact ⟨first, List.append_assoc first [.scalar '/'] name⟩
    · refine ⟨first ++ .scalar '/' :: s, ?_⟩
      obtain ⟨next, rest, hnext⟩ : ∃ next rest, names ++ [name] = next :: rest := by
        cases names with
        | nil => exact ⟨name, [], rfl⟩
        | cons next rest => exact ⟨next, rest ++ [name], rfl⟩
      rw [hnext] at hs
      rw [List.cons_append, hnext, Text.join, hs, List.append_assoc, List.append_assoc]
      · rfl
      · exact List.cons_ne_nil _ _

/-- The last name in the spelling of a path is that of its last name. -/
theorem baseName_toText {root : Root} {names : List Text} {name : Text} :
    baseName (toText ⟨root, names ++ [name]⟩) = baseName name := by
  have htext : toText ⟨root, names ++ [name]⟩ =
      root.toText ++ Text.join [.scalar '/'] (names ++ [name]) := by
    cases root with
    | relative => cases names <;> rfl
    | _ => rfl
  rcases join_concat names name with rfl | ⟨s, hs⟩
  · rw [htext]
    cases root with
    | relative => rfl
    | slash => exact baseName_append [] name
    | twoSlashes => exact baseName_append [.scalar '/'] name
  · rw [htext, hs, ← List.append_assoc, baseName_append]

end Path

namespace Tool

/-- The last name of the file that a tool is started from, wherever the tools lie. -/
theorem baseName_binary (s : Settings) (t : Tool) :
    Path.baseName (t.binary s).toText = Path.baseName t.place := by
  have hplace : (Path.ofText t.place).root = .relative := by cases t <;> rfl
  have hnames : ∃ names, (Path.ofText t.place).names = names ++ [Path.baseName t.place] := by
    cases t with
    | esLint => exact ⟨["eslint", "bin"], by decide⟩
    | styleLint => exact ⟨["stylelint", "bin"], by decide⟩
    | biome => exact ⟨["@biomejs", "biome", "bin"], by decide⟩
    | _ => exact ⟨[], by decide⟩
  obtain ⟨names, hnames⟩ := hnames
  have hlast : Path.baseName (Path.baseName t.place) = Path.baseName t.place := by
    cases t <;> decide
  unfold binary
  cases t.group with
  | php =>
    simp only [Path.append_of_relative hplace, hnames, ← List.append_assoc, Path.baseName_toText]
    exact hlast
  | js =>
    simp only [Path.append_of_relative hplace, hnames, ← List.append_assoc, Path.baseName_toText]
    exact hlast

theorem baseName_place_injective {t u : Tool}
    (h : Path.baseName t.place = Path.baseName u.place) : t = u := by
  revert h
  cases t <;> cases u <;> decide

/-- The first argument of a PHP tool names no script. -/
theorem head?_arguments {t : Tool} (ht : t.group = .php) (s : Settings) :
    ∃ argument arguments, t.arguments s = argument :: arguments ∧
      argument.head? ≠ some (.scalar '/') := by
  cases t with
  | phpStan => exact ⟨_, _, rfl, by decide⟩
  | psalm | phpCs | ecs =>
    unfold arguments unlessCached
    cases s.cache <;> exact ⟨_, _, rfl, by decide⟩
  | _ => cases ht

theorem head?_binary {t : Tool} (ht : t.group = .js) {s : Settings}
    (hroot : s.jsRoot.root ≠ .relative) :
    (t.binary s).toText.head? = some (.scalar '/') := by
  have hplace : (Path.ofText t.place).root = .relative := by cases t <;> rfl
  have hmodules : (Path.ofText "node_modules").root = .relative := rfl
  simp only [binary, ht, Path.below]
  rw [Path.append_of_relative hplace, Path.append_of_relative hmodules]
  cases hr : s.jsRoot.root with
  | relative => exact absurd hr hroot
  | slash => rfl
  | twoSlashes => rfl

/-- No two tools have a command in common. -/
theorem command_injective {s : Settings} (hroot : s.jsRoot.root ≠ .relative)
    {interpreter : Option Text} {t u : Tool}
    (h : t.command s interpreter = u.command s interpreter) : t = u := by
  -- a PHP tool and a script differ in the second word of their commands
  have hmixed {t u : Tool} (ht : t.group = .php) (hu : u.group = .js) :
      t.command s interpreter ≠ u.command s interpreter := by
    intro h
    obtain ⟨argument, arguments, harguments, hhead⟩ := head?_arguments ht s
    simp only [command, ht, hu, harguments, List.cons.injEq] at h
    exact hhead (h.2.1 ▸ head?_binary hu hroot)
  apply baseName_place_injective
  rw [← baseName_binary s t, ← baseName_binary s u]
  cases ht : t.group with
  | php =>
    cases hu : u.group with
    | php =>
      simp only [command, ht, hu, List.cons.injEq] at h
      rw [h.1]
    | js => exact absurd h (hmixed ht hu)
  | js =>
    cases hu : u.group with
    | php => exact absurd h.symm (hmixed hu ht)
    | js =>
      simp only [command, ht, hu, List.cons.injEq, true_and] at h
      rw [h.1]

end Tool

end LintReport
