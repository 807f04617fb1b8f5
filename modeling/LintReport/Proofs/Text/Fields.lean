import LintReport.Text.Basic

/-!
Fields of a text and texts joined from them. A text is joined from its fields, and parts without the
separator come back as the fields of what is joined from them.
-/
namespace LintReport.Text

theorem fields_ne_nil (c : CodePoint) (s : Text) : fields c s ≠ [] := by
  cases s with
  | nil => exact List.cons_ne_nil _ _
  | cons x s =>
    rw [fields]
    split
    · exact List.cons_ne_nil _ _
    · split <;> exact List.cons_ne_nil _ _

theorem fields_append {c : CodePoint} {s : Text} (hs : c ∉ s) (rest : Text) :
    fields c (s ++ c :: rest) = s :: fields c rest := by
  induction s with
  | nil => simp [fields]
  | cons x s ih =>
    have hx : x ≠ c := fun e => hs (e ▸ List.mem_cons_self)
    have hs' : c ∉ s := fun h => hs (List.mem_cons_of_mem _ h)
    simp [fields, hx, ih hs']

/-- What stands before the first separator begins the first part. -/
theorem exists_fields_append {c : CodePoint} {s : Text} (hs : c ∉ s) (rest : Text) :
    ∃ part parts, fields c (s ++ rest) = (s ++ part) :: parts := by
  induction s with
  | nil => exact List.exists_cons_of_ne_nil (fields_ne_nil c rest)
  | cons x s ih =>
    have hx : x ≠ c := fun e => hs (e ▸ List.mem_cons_self)
    obtain ⟨part, parts, hfields⟩ := ih fun h => hs (List.mem_cons_of_mem _ h)
    exact ⟨part, parts, by rw [List.cons_append, fields, if_neg hx, hfields]; rfl⟩

/-- The parts behind a separator are the last ones, whatever stands before it. -/
theorem fields_suffix (c : CodePoint) (s rest : Text) :
    ∃ part parts, fields c (s ++ c :: rest) = (part :: parts) ++ fields c rest := by
  induction s with
  | nil => exact ⟨[], [], by rw [List.nil_append, fields, if_pos rfl]; rfl⟩
  | cons x s ih =>
    obtain ⟨part, parts, hfields⟩ := ih
    rw [List.cons_append, fields, hfields]
    by_cases hx : x = c
    · exact ⟨[], part :: parts, by rw [if_pos hx]; rfl⟩
    · exact ⟨x :: part, parts, by rw [if_neg hx]; rfl⟩

theorem fields_of_not_mem {c : CodePoint} {s : Text} (hs : c ∉ s) : fields c s = [s] := by
  induction s with
  | nil => rfl
  | cons x s ih =>
    have hx : x ≠ c := fun e => hs (e ▸ List.mem_cons_self)
    have hs' : c ∉ s := fun h => hs (List.mem_cons_of_mem _ h)
    simp [fields, hx, ih hs']

theorem fields_join {c : CodePoint} {names : List Text} (hne : names ≠ [])
    (hnames : ∀ name ∈ names, c ∉ name) : fields c (join [c] names) = names := by
  induction names with
  | nil => exact absurd rfl hne
  | cons name names ih =>
    have hname : c ∉ name := hnames name List.mem_cons_self
    cases names with
    | nil => exact fields_of_not_mem hname
    | cons next names =>
      have hrest : ∀ x ∈ next :: names, c ∉ x := fun x hx => hnames x (List.mem_cons_of_mem _ hx)
      simp only [join, List.append_assoc, List.singleton_append]
      rw [fields_append hname, ih (List.cons_ne_nil _ _) hrest]

theorem mem_of_mem_fields {c x : CodePoint} {s part : Text} (hpart : part ∈ fields c s)
    (hx : x ∈ part) : x ≠ c := by
  induction s generalizing part with
  | nil =>
    simp only [fields, List.mem_singleton] at hpart
    simp [hpart] at hx
  | cons y s ih =>
    rw [fields] at hpart
    split at hpart
    · rcases List.mem_cons.mp hpart with rfl | hpart
      · simp at hx
      · exact ih hpart hx
    · next hy =>
      split at hpart
      · simp only [List.mem_singleton] at hpart
        subst hpart
        simp only [List.mem_singleton] at hx
        exact hx ▸ hy
      · next first parts hfields =>
        rcases List.mem_cons.mp hpart with rfl | hpart
        · rcases List.mem_cons.mp hx with rfl | hx
          · exact hy
          · exact ih (hfields ▸ List.mem_cons_self) hx
        · exact ih (hfields ▸ List.mem_cons_of_mem _ hpart) hx

theorem join_fields (c : CodePoint) (s : Text) : join [c] (fields c s) = s := by
  induction s with
  | nil => rfl
  | cons x s ih =>
    obtain ⟨part, parts, hparts⟩ := List.exists_cons_of_ne_nil (fields_ne_nil c s)
    rw [hparts] at ih
    by_cases hx : x = c
    · rw [fields, if_pos hx, hparts, join, ih, hx]
      · rfl
      · exact List.cons_ne_nil part parts
    · rw [fields, if_neg hx, hparts]
      cases parts with
      | nil => rw [← ih]; rfl
      | cons next parts => rw [← ih]; rfl

theorem mem_of_mem_join {separator : Text} {parts : List Text} {c : CodePoint}
    (h : c ∈ join separator parts) : c ∈ separator ∨ ∃ part ∈ parts, c ∈ part := by
  induction parts with
  | nil => cases h
  | cons part parts ih =>
    cases parts with
    | nil => exact Or.inr ⟨part, List.mem_cons_self, h⟩
    | cons next parts =>
      rw [join, List.mem_append, List.mem_append] at h
      · rcases h with (h | h) | h
        · exact Or.inr ⟨part, List.mem_cons_self, h⟩
        · exact Or.inl h
        · exact (ih h).imp_right fun ⟨part, hpart, hc⟩ => ⟨part, List.mem_cons_of_mem _ hpart, hc⟩
      · exact List.cons_ne_nil next parts

/-- What is no separator stands in one of the parts. -/
theorem exists_mem_fields {separator c : CodePoint} {s : Text} (hc : c ∈ s) (hne : c ≠ separator) :
    ∃ part ∈ fields separator s, c ∈ part := by
  rw [← join_fields separator s] at hc
  exact (mem_of_mem_join hc).resolve_left (mt List.mem_singleton.mp hne)

/-- Every part stands in what is joined from the parts. -/
theorem infix_join {separator part : Text} {parts : List Text} (h : part ∈ parts) :
    part <:+: join separator parts := by
  induction parts with
  | nil => cases h
  | cons first parts ih =>
    cases parts with
    | nil => rw [List.mem_singleton.mp h]; exact List.infix_rfl
    | cons next parts =>
      rw [join]
      · rcases List.mem_cons.mp h with rfl | h
        · exact ⟨[], separator ++ join separator (next :: parts), by simp⟩
        · exact (ih h).trans (List.suffix_append _ _).isInfix
      · exact List.cons_ne_nil next parts

end LintReport.Text
