import LintReport.Path
import LintReport.Proofs.Text.Fields

/-!
Resolved paths. A path is resolved when it starts at a root and no name in it can vanish or climb.
Such a path is what its own spelling spells, and it means the same wherever it is seen from; every
path that is resolved against a resolved directory is one.
-/
namespace LintReport.Path

open Text (fields_join mem_of_mem_fields)

/-- A name that stands for an entry of a directory. -/
def IsEntry (name : Text) : Prop :=
  name ≠ [] ∧ name ≠ [.scalar '.'] ∧ .scalar '/' ∉ name

/-- The name that climbs to the directory above. -/
abbrev climb : Text := "..".toList.map .scalar

/-- An absolute path in which every name stands for an entry and none climbs. -/
structure Resolved (p : Path) : Prop where
  absolute : p.root ≠ .relative
  entries : ∀ name ∈ p.names, IsEntry name
  noClimb : ∀ name ∈ p.names, name ≠ climb

/-! ### Spellings -/

/-- The names in a spelling stand for entries; they may still climb. -/
theorem isEntry_of_mem_ofText {s name : Text} (h : name ∈ (ofText s).names) : IsEntry name := by
  simp only [ofText, List.mem_filter, decide_eq_true_eq] at h
  obtain ⟨hmem, hne, hdot⟩ := h
  exact ⟨hne, hdot, fun hslash => mem_of_mem_fields hmem hslash rfl⟩

/-- The parts that a spelling loses are those that stand for no entry. -/
theorem filter_entries {names : List Text} (h : ∀ name ∈ names, IsEntry name) :
    names.filter (fun name => name ≠ [] ∧ name ≠ [.scalar '.']) = names := by
  apply List.filter_eq_self.mpr
  intro name hname
  have hentry := h name hname
  simpa using And.intro hentry.1 hentry.2.1

theorem join_head {names : List Text} (hne : names ≠ []) (h : ∀ name ∈ names, IsEntry name) :
    ∃ c rest, Text.join [.scalar '/'] names = c :: rest ∧ c ≠ .scalar '/' := by
  cases names with
  | nil => exact absurd rfl hne
  | cons name names =>
    obtain ⟨hname, -, hslash⟩ := h name List.mem_cons_self
    cases name with
    | nil => exact absurd rfl hname
    | cons c name =>
      have hc : c ≠ .scalar '/' := fun e => hslash (e ▸ List.mem_cons_self)
      cases names with
      | nil => exact ⟨c, name, rfl, hc⟩
      | cons next names => exact ⟨c, _, rfl, hc⟩

private theorem ofText_of_slash {c : CodePoint} {rest : Text} (hc : c ≠ .scalar '/') :
    ofText (.scalar '/' :: c :: rest) = ⟨.slash,
      (Text.fields (.scalar '/') (c :: rest)).filter
        fun name => name ≠ [] ∧ name ≠ [.scalar '.']⟩ := by
  have hroot : rootOf (.scalar '/' :: c :: rest) = .slash := by
    unfold rootOf
    split <;> simp_all
  simp [ofText, hroot, Text.fields]

private theorem ofText_of_two_slashes {c : CodePoint} {rest : Text} (hc : c ≠ .scalar '/') :
    ofText (.scalar '/' :: .scalar '/' :: c :: rest) = ⟨.twoSlashes,
      (Text.fields (.scalar '/') (c :: rest)).filter
        fun name => name ≠ [] ∧ name ≠ [.scalar '.']⟩ := by
  have hroot : rootOf (.scalar '/' :: .scalar '/' :: c :: rest) = .twoSlashes := by
    rw [rootOf.eq_2]
    exact fun tail h => hc (List.cons.inj h).1
  simp [ofText, hroot, Text.fields]

/-- A resolved path is what its spelling spells. -/
theorem ofText_toText {p : Path} (hp : p.Resolved) : ofText p.toText = p := by
  obtain ⟨root, names⟩ := p
  have habsolute : root ≠ .relative := hp.absolute
  by_cases hne : names = []
  · subst hne
    cases root with
    | relative => exact absurd rfl habsolute
    | slash => rfl
    | twoSlashes => rfl
  · obtain ⟨c, rest, hjoin, hc⟩ := join_head hne hp.entries
    have hfields : Text.fields (.scalar '/') (c :: rest) = names := by
      rw [← hjoin]
      exact fields_join hne fun name hname => (hp.entries name hname).2.2
    have hfilter := filter_entries hp.entries
    cases root with
    | relative => exact absurd rfl habsolute
    | slash =>
      have htext : toText ⟨.slash, names⟩ = .scalar '/' :: c :: rest := by
        simp [toText, Root.toText, hjoin]
      rw [htext, ofText_of_slash hc, hfields, hfilter]
    | twoSlashes =>
      have htext : toText ⟨.twoSlashes, names⟩ = .scalar '/' :: .scalar '/' :: c :: rest := by
        simp [toText, Root.toText, hjoin]
      rw [htext, ofText_of_two_slashes hc, hfields, hfilter]

/-! ### Resolution -/

theorem cancel_entry {rooted : Bool} {above names : List Text} {name : Text} (h : name ≠ climb) :
    cancel rooted above (name :: names) = cancel rooted (name :: above) names := by
  cases above with
  | nil => rw [cancel, if_pos h]
  | cons last rest => rw [cancel, if_pos h]

theorem cancel_climb_root (names : List Text) :
    cancel true [] (climb :: names) = cancel true [] names := by
  rw [cancel, if_neg (fun h : climb ≠ climb => h rfl), if_pos rfl]

theorem cancel_climb {rooted : Bool} {last : Text} {rest names : List Text} (h : last ≠ climb) :
    cancel rooted (last :: rest) (climb :: names) = cancel rooted rest names := by
  rw [cancel, if_neg (fun h : climb ≠ climb => h rfl), if_neg h]

/-- Climbing below a root only drops names, and nothing that climbs is left. -/
theorem mem_cancel {above names : List Text} {name : Text} (habove : ∀ x ∈ above, x ≠ climb)
    (h : name ∈ cancel true above names) : (name ∈ above ∨ name ∈ names) ∧ name ≠ climb := by
  induction names generalizing above with
  | nil =>
    rw [cancel, List.mem_reverse] at h
    exact ⟨Or.inl h, habove name h⟩
  | cons x names ih =>
    by_cases hx : x = climb
    · subst hx
      cases above with
      | nil =>
        rw [cancel_climb_root] at h
        obtain ⟨hmem, hne⟩ := ih habove h
        exact ⟨hmem.imp_right (List.mem_cons_of_mem _), hne⟩
      | cons last rest =>
        rw [cancel_climb (habove last List.mem_cons_self)] at h
        obtain ⟨hmem, hne⟩ := ih (fun y hy => habove y (List.mem_cons_of_mem _ hy)) h
        exact ⟨hmem.imp (List.mem_cons_of_mem _) (List.mem_cons_of_mem _), hne⟩
    · rw [cancel_entry hx] at h
      have habove' : ∀ y ∈ x :: above, y ≠ climb := by
        intro y hy
        rcases List.mem_cons.mp hy with rfl | hy
        · exact hx
        · exact habove y hy
      obtain ⟨hmem, hne⟩ := ih habove' h
      refine ⟨?_, hne⟩
      rcases hmem with hmem | hmem
      · rcases List.mem_cons.mp hmem with rfl | hmem
        · exact Or.inr List.mem_cons_self
        · exact Or.inl hmem
      · exact Or.inr (List.mem_cons_of_mem _ hmem)

theorem cancel_of_noClimb {rooted : Bool} {above names : List Text}
    (h : ∀ name ∈ names, name ≠ climb) : cancel rooted above names = above.reverse ++ names := by
  induction names generalizing above with
  | nil => simp [cancel]
  | cons x names ih =>
    rw [cancel_entry (h x List.mem_cons_self),
      ih fun name hname => h name (List.mem_cons_of_mem _ hname)]
    simp

theorem append_of_absolute {p q : Path} (hq : q.root ≠ .relative) : p ++ q = q := by
  change append p q = q
  simp [append, isAbsolute, hq]

theorem append_of_relative {p q : Path} (hq : q.root = .relative) :
    p ++ q = { p with names := p.names ++ q.names } := by
  change append p q = _
  simp [append, isAbsolute, hq]

/-- An absolute path means the same wherever it is seen from. -/
theorem resolve_of_absolute {p : Path} (hp : p.root ≠ .relative) (d e : Path) :
    resolve d p = resolve e p := by
  simp only [resolve, append_of_absolute hp]

theorem resolve_of_resolved {p : Path} (hp : p.Resolved) (d : Path) : resolve d p = p := by
  rw [resolve, append_of_absolute hp.absolute, cancel_of_noClimb hp.noClimb]
  rfl

/-- What is seen from a resolved directory is resolved, however it is spelled. -/
theorem resolved_resolve {d : Path} (hd : d.Resolved) (s : Text) :
    (resolve d (ofText s)).Resolved := by
  have hentries : ∀ name ∈ (d ++ ofText s).names, IsEntry name := by
    by_cases hs : (ofText s).root = .relative
    · rw [append_of_relative hs]
      intro name hname
      rcases List.mem_append.mp hname with hname | hname
      · exact hd.entries name hname
      · exact isEntry_of_mem_ofText hname
    · rw [append_of_absolute hs]
      exact fun name hname => isEntry_of_mem_ofText hname
  have habsolute : (d ++ ofText s).root ≠ .relative := by
    by_cases hs : (ofText s).root = .relative
    · rw [append_of_relative hs]
      exact hd.absolute
    · rw [append_of_absolute hs]
      exact hs
  have hrooted : (d ++ ofText s).isAbsolute = true := by simp [isAbsolute, habsolute]
  have hcancel : ∀ name ∈ (resolve d (ofText s)).names,
      name ∈ (d ++ ofText s).names ∧ name ≠ climb := by
    intro name hname
    simp only [resolve, hrooted] at hname
    obtain ⟨hmem, hne⟩ := mem_cancel (by simp) hname
    rcases hmem with hmem | hmem
    · simp at hmem
    · exact ⟨hmem, hne⟩
  exact ⟨habsolute, fun name hname => hentries name (hcancel name hname).1,
    fun name hname => (hcancel name hname).2⟩

end LintReport.Path
