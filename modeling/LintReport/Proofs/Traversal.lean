/-!
Traversals. Where every step over a list gives a result, so does the traversal, and what it gives
are the results in their order. Otherwise its error is that of the first step that fails.
-/
namespace LintReport

variable {α β ε : Type} {f f' : α → Except ε β} {g : α → β} {xs : List α}

theorem bind_eq_ok {x : Except ε α} {y : β} (h : x >>= f = .ok y) :
    ∃ a, x = .ok a ∧ f a = .ok y := by
  cases x with
  | error e => cases h
  | ok a => exact ⟨a, rfl, h⟩

theorem mapM_congr (h : ∀ x ∈ xs, f x = f' x) : xs.mapM f = xs.mapM f' := by
  induction xs with
  | nil => rfl
  | cons x xs ih =>
    obtain ⟨hx, hxs⟩ := List.forall_mem_cons.mp h
    rw [List.mapM_cons, List.mapM_cons, hx, ih hxs]

theorem mapM_eq_map_mapM {g : β → β} (h : ∀ x ∈ xs, f' x = (f x).map g) :
    xs.mapM f' = (xs.mapM f).map (List.map g) := by
  induction xs with
  | nil => rfl
  | cons x xs ih =>
    obtain ⟨hx, hxs⟩ := List.forall_mem_cons.mp h
    rw [List.mapM_cons, List.mapM_cons, hx, ih hxs]
    cases f x with
    | error e => rfl
    | ok y => cases xs.mapM f <;> rfl

theorem mapM_single (f : α → Except ε β) (xs : List α) :
    xs.mapM (fun x => (f x).map ([·])) = (xs.mapM f).map fun ys => ys.map ([·]) := by
  induction xs with
  | nil => rfl
  | cons x xs ih =>
    rw [List.mapM_cons, List.mapM_cons, ih]
    cases f x with
    | error e => rfl
    | ok y => cases xs.mapM f <;> rfl

theorem flatten_single (ys : List β) : (ys.map ([·])).flatten = ys := by
  rw [← List.flatMap_def, List.flatMap_singleton']

/-! ### Results -/

theorem mapM_of_forall (h : ∀ x ∈ xs, f x = .ok (g x)) : xs.mapM f = .ok (xs.map g) := by
  induction xs with
  | nil => rfl
  | cons x xs ih =>
    obtain ⟨hx, hxs⟩ := List.forall_mem_cons.mp h
    rw [List.mapM_cons, hx, ih hxs]
    rfl

theorem map_eq_of_mapM_eq_ok {ys : List β} (h : xs.mapM f = .ok ys) :
    xs.map f = ys.map .ok := by
  induction xs generalizing ys with
  | nil =>
    cases h
    rfl
  | cons x xs ih =>
    rw [List.mapM_cons] at h
    obtain ⟨y, hy, h⟩ := bind_eq_ok h
    obtain ⟨rest, hrest, h⟩ := bind_eq_ok h
    cases h
    rw [List.map_cons, hy, ih hrest, List.map_cons]

/-! ### Errors -/

/-- The first error of a traversal is its result. -/
theorem mapM_of_first_error {before after : List α} {x : α} {e : ε}
    (h : ∀ y ∈ before, f y = .ok (g y)) (hx : f x = .error e) :
    (before ++ x :: after).mapM f = .error e := by
  rw [List.mapM_append, mapM_of_forall h, List.mapM_cons, hx]
  rfl

/-- Where a step fails, the traversal has the error of a step. -/
theorem mapM_eq_error_of_mem (h : ∃ x ∈ xs, ∃ e, f x = .error e) :
    ∃ x ∈ xs, ∃ e, f x = .error e ∧ xs.mapM f = .error e := by
  induction xs with
  | nil => simp at h
  | cons x xs ih =>
    rw [List.mapM_cons]
    cases hx : f x with
    | error e => exact ⟨x, List.mem_cons_self, e, hx, rfl⟩
    | ok y =>
      have hrest : ∃ x ∈ xs, ∃ e, f x = .error e := by simpa [hx] using h
      obtain ⟨x', hx', e, he, hmap⟩ := ih hrest
      refine ⟨x', List.mem_cons_of_mem x hx', e, he, ?_⟩
      rw [hmap]
      rfl

end LintReport
