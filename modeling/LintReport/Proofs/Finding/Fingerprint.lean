import LintReport.Proofs.Finding.Sealed
import LintReport.Proofs.Finding.Tolerated
import LintReport.Proofs.Number.Whole
import LintReport.Proofs.Text.Fields

/-!
What a fingerprint is made of. A path, a key between brackets and a description are put one behind
the other. The key tells positions apart, but brackets may stand in a path or in a description as
well: two issues have one text between them if and only if they are alike, or the path of one holds
the path and the key of the other and the description of the other holds the rest. That takes a
longer path and another description, so two issues that differ in one part never have one text.
-/
namespace LintReport

/-! ### Keys -/

namespace Position

theorem value_of_mem_keyPart {part : Option Int} {c : CodePoint} (h : c ∈ keyPart part) :
    c.value ≤ 0x39 := by
  cases part with
  | none => cases h
  | some n => exact (Text.value_of_mem_ofInt h).2

theorem keyPart_injective : Function.Injective keyPart := by
  intro part part' h
  cases part with
  | none =>
    cases part' with
    | none => rfl
    | some n => exact absurd h.symm (Text.ofInt_ne_nil n)
  | some m =>
    cases part' with
    | none => exact absurd h (Text.ofInt_ne_nil m)
    | some n => exact congrArg some (Text.ofInt_injective h)

theorem key_eq (p : Position) : p.key = Text.join [.scalar ':']
    ([some p.line, p.column, p.endLine, p.endColumn].map keyPart) :=
  rfl

theorem fields_key (p : Position) :
    Text.fields (.scalar ':') p.key =
      [some p.line, p.column, p.endLine, p.endColumn].map keyPart := by
  have hparts : ∀ part ∈ [some p.line, p.column, p.endLine, p.endColumn].map keyPart,
      .scalar ':' ∉ part := by
    intro part hpart hcolon
    obtain ⟨part, -, rfl⟩ := List.mem_map.mp hpart
    exact absurd (value_of_mem_keyPart hcolon) (by decide)
  rw [key_eq]
  exact Text.fields_join (List.cons_ne_nil _ _) hparts

/-- A position can be read off its key. -/
theorem key_injective : Function.Injective key := by
  intro p q h
  have hparts : [some p.line, p.column, p.endLine, p.endColumn].map keyPart =
      [some q.line, q.column, q.endLine, q.endColumn].map keyPart := by
    rw [← fields_key, ← fields_key, h]
  have hparts := (List.map_inj_right fun _ _ h => keyPart_injective h).mp hparts
  cases p
  cases q
  cases hparts
  rfl

theorem value_of_mem_key {p : Position} {c : CodePoint} (h : c ∈ p.key) : c.value ≤ 0x3A := by
  rw [key_eq] at h
  rcases Text.mem_of_mem_join h with h | ⟨part, hpart, h⟩
  · rw [List.mem_singleton.mp h]
    decide
  · obtain ⟨part, -, rfl⟩ := List.mem_map.mp hpart
    exact Nat.le_succ_of_le (value_of_mem_keyPart h)

theorem bracket_not_mem_key (p : Position) : .scalar '[' ∉ p.key ∧ .scalar ']' ∉ p.key :=
  ⟨fun h => absurd (value_of_mem_key h) (by decide),
    fun h => absurd (value_of_mem_key h) (by decide)⟩

end Position

/-! ### Brackets -/

section Brackets

variable {key key' path path' description description' after : Text}

/-- Texts that go on with brackets of their own give away the key if they start alike. -/
theorem exists_between (hkey : .scalar '[' ∉ key) (hne : after ≠ [])
    (h : .scalar '[' :: key ++ .scalar ']' :: description =
      after ++ (.scalar '[' :: key' ++ .scalar ']' :: description')) :
    ∃ between, after = .scalar '[' :: key ++ .scalar ']' :: between ∧
      description = between ++ .scalar '[' :: key' ++ .scalar ']' :: description' := by
  rcases List.append_eq_append_iff.mp h with ⟨rest, hafter, hrest⟩ | ⟨rest, hopening, hrest⟩
  · cases rest with
    | nil => cases (List.cons.inj hrest).1
    | cons c between =>
      obtain ⟨rfl, hdescription⟩ := List.cons.inj hrest
      exact ⟨between, hafter, hdescription.trans (List.append_assoc _ _ _).symm⟩
  · cases rest with
    | nil => cases (List.cons.inj hrest).1
    | cons c rest =>
      -- the second bracket would open within the first key
      obtain ⟨first, after, rfl⟩ := List.exists_cons_of_ne_nil hne
      have hc : .scalar '[' = c := (List.cons.inj hrest).1
      have hmem : c ∈ key := by
        rw [(List.cons.inj hopening).2]
        exact List.mem_append_right _ List.mem_cons_self
      exact absurd (hc ▸ hmem) hkey

end Brackets

namespace Issue

variable {path path' description description' : Text} {position position' : Position}

/-- The second path goes on where the first one ends: with the key of the first and with what the
first description begins with, before the second key and the second description. -/
def RunsOn (path : Text) (position : Position) (description path' : Text) (position' : Position)
    (description' : Text) : Prop :=
  ∃ between : Text,
    path' = path ++ .scalar '[' :: position.key ++ .scalar ']' :: between ∧
    description = between ++ .scalar '[' :: position'.key ++ .scalar ']' :: description'

theorem RunsOn.fingerprintBase_eq
    (h : RunsOn path position description path' position' description') :
    fingerprintBase path position description = fingerprintBase path' position' description' := by
  obtain ⟨between, rfl, rfl⟩ := h
  simp [fingerprintBase]

/-- One path begins with the other, so the parts are the same or the shorter path runs on. -/
theorem eq_or_runsOn {after : Text} (h : fingerprintBase path position description =
    fingerprintBase (path ++ after) position' description') :
    (path = path ++ after ∧ position = position' ∧ description = description') ∨
      RunsOn path position description (path ++ after) position' description' := by
  obtain ⟨hopening, hclosing⟩ := position.bracket_not_mem_key
  have hrest : .scalar '[' :: position.key ++ .scalar ']' :: description =
      after ++ (.scalar '[' :: position'.key ++ .scalar ']' :: description') := by
    simpa only [fingerprintBase, List.append_assoc, List.append_cancel_left_eq] using h
  by_cases hne : after = []
  · subst hne
    have htail : position.key ++ .scalar ']' :: description =
        position'.key ++ .scalar ']' :: description' := (List.cons.inj hrest).2
    have hfields := congrArg (Text.fields (.scalar ']')) htail
    rw [Text.fields_append hclosing, Text.fields_append position'.bracket_not_mem_key.2] at hfields
    have hkey : position.key = position'.key := (List.cons.inj hfields).1
    rw [hkey] at htail
    exact Or.inl ⟨(List.append_nil path).symm, Position.key_injective hkey,
      (List.cons.inj (List.append_cancel_left htail)).2⟩
  · obtain ⟨between, rfl, hdescription⟩ := exists_between hopening hne hrest
    exact Or.inr ⟨between, (List.append_assoc _ _ _).symm, hdescription⟩

/-- The texts of two fingerprints are the same if and only if they are made of the same parts, or
the path of one runs on into the path of the other. -/
theorem fingerprintBase_eq_iff :
    fingerprintBase path position description = fingerprintBase path' position' description' ↔
      (path = path' ∧ position = position' ∧ description = description') ∨
        RunsOn path position description path' position' description' ∨
        RunsOn path' position' description' path position description := by
  constructor
  · intro h
    have hpaths := h
    simp only [fingerprintBase, List.append_assoc] at hpaths
    rcases List.append_eq_append_iff.mp hpaths with ⟨after, rfl, -⟩ | ⟨after, rfl, -⟩
    · exact (eq_or_runsOn h).imp_right Or.inl
    · rcases eq_or_runsOn h.symm with ⟨hpath, hposition, hdescription⟩ | hruns
      · exact Or.inl ⟨hpath.symm, hposition.symm, hdescription.symm⟩
      · exact Or.inr (Or.inr hruns)
  · rintro (⟨rfl, rfl, rfl⟩ | h | h)
    · rfl
    · exact h.fingerprintBase_eq
    · exact h.fingerprintBase_eq.symm

/-- A path gets longer by running on, and the description that goes on with it is the longer one. -/
theorem RunsOn.ne (h : RunsOn path position description path' position' description') :
    path ≠ path' ∧ description ≠ description' := by
  obtain ⟨between, rfl, rfl⟩ := h
  constructor
  · intro hpath
    have hlength := congrArg List.length hpath
    simp only [List.length_append, List.length_cons] at hlength
    omega
  · intro hdescription
    have hlength := congrArg List.length hdescription
    simp only [List.length_append, List.length_cons] at hlength
    omega

/-- Under one path, or with one description, the texts tell all their parts. -/
theorem eq_of_fingerprintBase_eq_of_shared (h : fingerprintBase path position description =
      fingerprintBase path' position' description')
    (hshared : path = path' ∨ description = description') :
    path = path' ∧ position = position' ∧ description = description' := by
  rcases fingerprintBase_eq_iff.mp h with h | hruns | hruns
  · exact h
  · exact absurd hshared (not_or.mpr hruns.ne)
  · exact absurd (hshared.imp Eq.symm Eq.symm) (not_or.mpr hruns.ne)

/-- Of a path, a position and a description, exactly one differs. -/
def DifferInOne (path : Text) (position : Position) (description path' : Text)
    (position' : Position) (description' : Text) : Prop :=
  (path ≠ path' ∧ position = position' ∧ description = description') ∨
    (path = path' ∧ position ≠ position' ∧ description = description') ∨
    (path = path' ∧ position = position' ∧ description ≠ description')

/-- A position can be read off its key, and no change of a single part is lost in the text of a
fingerprint, whatever brackets and colons stand in the path and in the description. -/
theorem fingerprintBase_ne_of_differInOne :
    Function.Injective Position.key ∧
      ∀ path position description path' position' description',
        DifferInOne path position description path' position' description' →
          fingerprintBase path position description ≠
            fingerprintBase path' position' description' := by
  refine ⟨Position.key_injective, ?_⟩
  intro path position description path' position' description' h heq
  have hshared : path = path' ∨ description = description' := by
    rcases h with ⟨-, -, hdescription⟩ | ⟨hpath, -⟩ | ⟨hpath, -⟩
    · exact Or.inr hdescription
    · exact Or.inl hpath
    · exact Or.inl hpath
  obtain ⟨hpath, hposition, hdescription⟩ := eq_of_fingerprintBase_eq_of_shared heq hshared
  rcases h with ⟨hne, -⟩ | ⟨-, hne, -⟩ | ⟨-, -, hne⟩
  · exact hne hpath
  · exact hne hposition
  · exact hne hdescription

/-- A column and an end line of the same number, between a path and a description that look like
keys themselves. -/
theorem fingerprintBase_ne_of_differInOne_keys :
    DifferInOne "a[1:2::]" { line := 1, column := some 2 } "[1::2:]b"
        "a[1:2::]" { line := 1, endLine := some 2 } "[1::2:]b" ∧
      fingerprintBase "a[1:2::]" { line := 1, column := some 2 } "[1::2:]b" ≠
        fingerprintBase "a[1:2::]" { line := 1, endLine := some 2 } "[1::2:]b" := by
  have hdiffer : DifferInOne "a[1:2::]" { line := 1, column := some 2 } "[1::2:]b"
      "a[1:2::]" { line := 1, endLine := some 2 } "[1::2:]b" :=
    Or.inr (Or.inl ⟨rfl, by decide, rfl⟩)
  exact ⟨hdiffer, fingerprintBase_ne_of_differInOne.2 _ _ _ _ _ _ hdiffer⟩

/-- The text that the fingerprint of an issue is the digest of. -/
def base (issue : Issue) : Text :=
  fingerprintBase issue.location.path issue.location.position issue.description

/-- The path of one issue runs on into the path of the other. -/
def RunsInto (issue other : Issue) : Prop :=
  RunsOn issue.location.path issue.location.position issue.description other.location.path
    other.location.position other.description

/-- An issue whose fingerprint is the digest of its path, its position and its description. -/
def IsDigested (issue : Issue) : Prop :=
  ∃ bytes, issue.base.encode = .ok bytes ∧ issue.fingerprint = Digest.sha1 bytes

theorem digest_of_fingerprintOf {fingerprint : Text}
    (h : fingerprintOf path position description = .ok fingerprint) :
    ∃ bytes, (fingerprintBase path position description).encode = .ok bytes ∧
      Digest.sha1 bytes = fingerprint := by
  unfold fingerprintOf at h
  split at h
  · split at h
    · next bytes hbytes => exact ⟨bytes, hbytes, Except.ok.inj h⟩
    · cases h
  · cases h

theorem isDigested_of_sealed {issue issue' : Issue} (h : issue.sealed = .ok issue')
    (hnone : issue.fingerprint = []) : issue'.IsDigested := by
  rw [sealed, if_pos hnone] at h
  obtain ⟨fingerprint, hfingerprint, heq⟩ := bind_eq_ok h
  cases heq
  obtain ⟨bytes, hbytes, hdigest⟩ := digest_of_fingerprintOf hfingerprint
  exact ⟨bytes, hbytes, hdigest.symm⟩

end Issue

namespace Finding

variable {f g : Finding} {workingDir : Text} {issue other : Issue}

theorem isDigested_of_toIssue (h : f.toIssue workingDir = .ok issue) : issue.IsDigested := by
  obtain ⟨position, hposition, hsealed⟩ := bind_eq_ok h
  exact Issue.isDigested_of_sealed hsealed rfl

/-- The fingerprints of two findings are digests of one text if and only if their issues have path,
position and description in common, or the path of one runs on into the path of the other. -/
theorem base_eq_iff (hf : f.toIssue workingDir = .ok issue) (hg : g.toIssue workingDir = .ok other) :
    issue.IsDigested ∧ other.IsDigested ∧
      (issue.base = other.base ↔
        (issue.location.path = other.location.path ∧
          issue.location.position = other.location.position ∧
          issue.description = other.description) ∨
        issue.RunsInto other ∨ other.RunsInto issue) :=
  ⟨isDigested_of_toIssue hf, isDigested_of_toIssue hg, Issue.fingerprintBase_eq_iff⟩

/-- Brackets in the message of one finding and in the path of another. -/
theorem base_eq_iff_brackets :
    ∃ f g : Finding, ∃ issue other : Issue,
      f = Psalm.finding (.object [("file_path", .string "a"), ("line_from", .int 1),
        ("message", .string "x[2:::]Psalm: y")]) ∧
      g = Psalm.finding (.object [("file_path", .string "a[1:::]Psalm: x"), ("line_from", .int 2),
        ("message", .string "y")]) ∧
      f.toIssue [.scalar '/'] = .ok issue ∧ g.toIssue [.scalar '/'] = .ok other ∧
      issue.location.path ≠ other.location.path ∧ issue.base = other.base := by
  let f := Psalm.finding (.object [("file_path", .string "a"), ("line_from", .int 1),
    ("message", .string "x[2:::]Psalm: y")])
  let g := Psalm.finding (.object [("file_path", .string "a[1:::]Psalm: x"), ("line_from", .int 2),
    ("message", .string "y")])
  have hone : (Json.int 1).Bounded := .int (by decide +kernel)
  have htwo : (Json.int 2).Bounded := .int (by decide +kernel)
  have hf : f.toIssue [.scalar '/'] = .ok (f.tolerated [.scalar '/']) :=
    Harmless.toIssue_eq ⟨by decide, by decide⟩ (forall_parts.mpr ⟨hone, .null, .null, .null⟩)
  have hg : g.toIssue [.scalar '/'] = .ok (g.tolerated [.scalar '/']) :=
    Harmless.toIssue_eq ⟨by decide, by decide⟩ (forall_parts.mpr ⟨htwo, .null, .null, .null⟩)
  have hruns : (f.tolerated [.scalar '/']).RunsInto (g.tolerated [.scalar '/']) :=
    ⟨"Psalm: x", by decide, by decide⟩
  exact ⟨f, g, _, _, rfl, rfl, hf, hg, by decide,
    (base_eq_iff hf hg).2.2.mpr (Or.inr (Or.inl hruns))⟩

end Finding

end LintReport
