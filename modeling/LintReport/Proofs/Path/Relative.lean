import LintReport.Issue
import LintReport.Proofs.Text.Cut
import LintReport.Proofs.Text.Trimmed

/-!
Paths as they are seen from the working directory. A path below the directory loses the directory
and the slash behind it, and any other path stays as it is. What is left of a path below does not
start at the root, as long as no name in the path is empty, so no two files are seen as one.
-/
namespace LintReport

/-- What the paths below a directory begin with. -/
def Text.opening (directory : Text) : Text :=
  trimRight (· = .scalar '/') directory ++ [.scalar '/']

variable {directory path path' shown rest : Text}

/-- A path below the directory is shown from there, and any other as it is. -/
theorem relativePath_eq_iff :
    relativePath directory path = shown ↔
      path = directory.opening ++ shown ∨ path = shown ∧ ¬ directory.opening <+: path := by
  change (Text.after? directory.opening path).getD path = shown ↔ _
  cases hafter : Text.after? directory.opening path with
  | none =>
    have hnot := Text.after?_eq_none.mp hafter
    constructor
    · rintro rfl
      exact Or.inr ⟨rfl, hnot⟩
    · rintro (rfl | ⟨rfl, -⟩)
      · exact absurd (List.prefix_append _ _) hnot
      · rfl
  | some rest =>
    have hpath := Text.after?_eq_some.mp hafter
    constructor
    · rintro rfl
      exact Or.inl hpath
    · rintro (hshown | ⟨-, hnot⟩)
      · exact List.append_cancel_left (hpath.symm.trans hshown)
      · exact absurd ⟨rest, hpath.symm⟩ hnot

theorem relativePath_append (directory rest : Text) :
    relativePath directory (directory.opening ++ rest) = rest :=
  relativePath_eq_iff.mpr (Or.inl rfl)

theorem relativePath_of_outside (h : ¬ directory.opening <+: path) :
    relativePath directory path = path :=
  relativePath_eq_iff.mpr (Or.inr ⟨rfl, h⟩)

theorem opening_ne_nil (directory : Text) : directory.opening ≠ [] :=
  List.append_ne_nil_of_right_ne_nil _ (List.cons_ne_nil _ _)

theorem relativePath_nil (directory : Text) : relativePath directory [] = [] :=
  relativePath_of_outside fun h => opening_ne_nil directory (List.prefix_nil.mp h)

/-- Nothing but the directory and one slash is cut off from a path. -/
theorem relativePath_spec (workingDir path : Text) :
    path = relativePath workingDir path ∨
      path = Text.trimRight (· = .scalar '/') workingDir ++
        .scalar '/' :: relativePath workingDir path := by
  rcases relativePath_eq_iff.mp (rfl : relativePath workingDir path = _) with hbelow | ⟨hsame, -⟩
  · right
    rwa [Text.opening, List.append_assoc] at hbelow
  · exact Or.inl hsame

/-- What is left of a path was in it. -/
theorem mem_of_mem_relativePath {workingDir path : Text} {c : CodePoint}
    (h : c ∈ relativePath workingDir path) : c ∈ path := by
  rcases relativePath_spec workingDir path with hsame | hbelow
  · exact hsame ▸ h
  · rw [hbelow]
    exact List.mem_append_right _ (List.mem_cons_of_mem _ h)

/-! ### Directories -/

/-- The spelling of a directory without the slashes at its end. -/
structure IsStem (stem directory : Text) : Prop where
  slashes : ∃ n, directory = stem ++ List.replicate n (.scalar '/')
  last : stem.getLast? ≠ some (.scalar '/')

theorem isStem_trimRight (directory : Text) :
    IsStem (Text.trimRight (· = .scalar '/') directory) directory where
  slashes := by
    obtain ⟨stop, heq, hstop⟩ :=
      Text.exists_eq_trimRight_append (· = .scalar '/') directory
    have hslashes : stop = List.replicate stop.length (.scalar '/') :=
      List.eq_replicate_iff.mpr ⟨rfl, fun c hc => of_decide_eq_true (hstop c hc)⟩
    exact ⟨stop.length, by rwa [← hslashes]⟩
  last := fun h => absurd (Text.of_getLast?_trimRight h) (by simp)

/-- A directory does not lie above the paths that its spelling is a mere start of. -/
theorem not_below_of_ne_slash {c : CodePoint} (hc : c ≠ .scalar '/') (rest : Text) :
    ¬ directory.opening <+:
      Text.trimRight (· = .scalar '/') directory ++ c :: rest := by
  rw [Text.opening, List.prefix_append_right_inj, List.cons_prefix_cons]
  exact fun h => hc h.1.symm

/-! ### Absolute paths -/

/-- A path from the root in which no name is empty. -/
structure IsPlain (path : Text) : Prop where
  absolute : [.scalar '/'] <+: path
  noEmpty : ¬ [.scalar '/', .scalar '/'] <:+: path

/-- Two slashes would meet where the directory was cut off. -/
theorem IsPlain.not_absolute (h : IsPlain (directory.opening ++ rest)) :
    ¬ [.scalar '/'] <+: rest := by
  rintro ⟨rest, rfl⟩
  exact h.noEmpty ⟨Text.trimRight (· = .scalar '/') directory, rest, by simp [Text.opening]⟩

theorem eq_of_relativePath_eq (h : IsPlain path) (h' : IsPlain path')
    (hseen : relativePath directory path = relativePath directory path') : path = path' := by
  have hseen' : relativePath directory path' = relativePath directory path' := rfl
  rcases relativePath_eq_iff.mp hseen with hbelow | ⟨hsame, -⟩
  · rcases relativePath_eq_iff.mp hseen' with hbelow' | ⟨hsame', -⟩
    · exact hbelow.trans hbelow'.symm
    · rw [← hsame'] at hbelow
      exact absurd h'.absolute (hbelow ▸ h).not_absolute
  · rcases relativePath_eq_iff.mp hseen' with hbelow' | ⟨hsame', -⟩
    · rw [← hsame] at hbelow'
      exact absurd h.absolute (hbelow' ▸ h').not_absolute
    · exact hsame.trans hsame'.symm

/-- A path loses the directory and one slash if it lies below the directory, and nothing otherwise,
however many slashes the directory is spelled with. Directories whose names go on differently are
not taken for it, and no two absolute paths without empty names are seen as one. -/
theorem relativePath_separates (directory : Text) :
    ∃ stem, IsStem stem directory ∧
      (∀ path shown, relativePath directory path = shown ↔
        path = stem ++ .scalar '/' :: shown ∨
          path = shown ∧ ∀ rest, path ≠ stem ++ .scalar '/' :: rest) ∧
      (∀ c rest, c ≠ .scalar '/' →
        relativePath directory (stem ++ c :: rest) = stem ++ c :: rest) ∧
      ∀ path path', IsPlain path → IsPlain path' →
        relativePath directory path = relativePath directory path' → path = path' := by
  refine ⟨_, isStem_trimRight directory, fun path shown => ?_, fun c rest hc => ?_,
    fun path path' h h' => eq_of_relativePath_eq h h'⟩
  · have hopening (rest : Text) : directory.opening ++ rest =
        Text.trimRight (· = .scalar '/') directory ++ .scalar '/' :: rest :=
      List.append_assoc _ _ _
    have hprefix : ¬ directory.opening <+: path ↔ ∀ rest, path ≠
        Text.trimRight (· = .scalar '/') directory ++ .scalar '/' :: rest := by
      rw [List.IsPrefix, not_exists]
      exact forall_congr' fun rest => by rw [hopening, ne_eq, eq_comm]
    rw [relativePath_eq_iff, hopening, hprefix]
  · exact relativePath_of_outside (not_below_of_ne_slash hc rest)

/-- A file in a directory and one in a directory beside it whose name begins alike. -/
theorem relativePath_separates_siblings :
    relativePath "/repo/" "/repo/a.php" = "a.php" ∧
      relativePath "/repo/" "/repository/a.php" = "/repository/a.php" ∧
      IsPlain "/repo/a.php" ∧ IsPlain "/repository/a.php" ∧
      relativePath "/repo/" "/repo/a.php" ≠ relativePath "/repo/" "/repository/a.php" := by
  have hplain : IsPlain "/repo/a.php" := ⟨by decide, by decide⟩
  have hplain' : IsPlain "/repository/a.php" := ⟨by decide, by decide⟩
  obtain ⟨stem, -, hshown, -, hseparates⟩ := relativePath_separates "/repo/"
  refine ⟨by decide, by decide, hplain, hplain', fun hseen => ?_⟩
  exact absurd (hseparates _ _ hplain hplain' hseen) (by decide)

end LintReport
