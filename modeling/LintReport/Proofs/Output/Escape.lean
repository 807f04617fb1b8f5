import Mathlib.Data.List.Find
import Mathlib.Data.List.Nodup
import LintReport.Output.Annotation
import LintReport.Proofs.Text.Cut

/-!
Codes in annotations. They are replaced one code after the other, and that amounts to a single pass
over the text: what is put in for a code is part of no code that comes later. So a text in which the
percent sign is escaped, together with any other units, comes back as it was.
-/
namespace LintReport

/-! ### Replacements -/

namespace Text

variable {mark new s : Text} {c : CodePoint}

theorem replaceFrom_eq (mark new : Text) (skip : Nat) (s : Text) :
    replaceFrom mark new skip s = replace mark new (s.drop skip) := by
  induction s generalizing skip with
  | nil => cases skip <;> rfl
  | cons c s ih =>
    cases skip with
    | zero => rfl
    | succ skip => rw [replaceFrom, ih, List.drop_succ_cons]

theorem replace_of_prefix (h : mark <+: c :: s) :
    replace mark new (c :: s) = new ++ replace mark new (s.drop (mark.length - 1)) := by
  rw [replace, replaceFrom, if_pos (beginsWith_iff.mpr h), replaceFrom_eq]

theorem replace_of_not_prefix (h : ¬ mark <+: c :: s) :
    replace mark new (c :: s) = c :: replace mark new s := by
  rw [replace, replaceFrom, if_neg (mt beginsWith_iff.mp h)]
  rfl

/-- What is in a text after a replacement was there before or was put in. -/
theorem mem_of_mem_replace (h : c ∈ replace mark new s) : c ∈ s ∨ c ∈ new := by
  have hfrom (skip : Nat) (s : Text) (h : c ∈ replaceFrom mark new skip s) : c ∈ s ∨ c ∈ new := by
    induction s generalizing skip with
    | nil => cases skip <;> cases h
    | cons x s ih =>
      have htail (skip : Nat) (h : c ∈ replaceFrom mark new skip s) : c ∈ x :: s ∨ c ∈ new :=
        (ih skip h).imp_left (List.mem_cons_of_mem x)
      cases skip with
      | succ skip => exact htail skip h
      | zero =>
        rw [replaceFrom] at h
        split at h
        · rcases List.mem_append.mp h with h | h
          · exact Or.inr h
          · exact htail _ h
        · rcases List.mem_cons.mp h with rfl | h
          · exact Or.inl List.mem_cons_self
          · exact htail 0 h
  exact hfrom 0 s h

end Text

namespace Output.Annotation

open Text (replace)

/-! ### One pass -/

/-- The first code in a table that stands at the start of a text. -/
def codeAt? (codes : List (Text × CodePoint)) (s : Text) : Option (Text × CodePoint) :=
  codes.find? fun entry => Text.beginsWith entry.1 s

/-- The text with its codes replaced from left to right, where the first `skip` units belong to a
code that has been replaced. -/
def decodeFrom (codes : List (Text × CodePoint)) : (skip : Nat) → Text → Text
  | _, [] => []
  | skip + 1, _ :: s => decodeFrom codes skip s
  | 0, c :: s =>
    match codeAt? codes (c :: s) with
    | some (code, x) => x :: decodeFrom codes (code.length - 1) s
    | none => c :: decodeFrom codes 0 s

/-- The text with every code replaced in a single pass. -/
def decode (codes : List (Text × CodePoint)) (s : Text) : Text := decodeFrom codes 0 s

/-- A percent sign and units of another kind. -/
def IsCode (code : Text) : Prop := code.head? = some (.scalar '%') ∧ .scalar '%' ∉ code.tail

instance (code : Text) : Decidable (IsCode code) :=
  inferInstanceAs (Decidable (code.head? = some (.scalar '%') ∧ .scalar '%' ∉ code.tail))

/-- A table of codes of one length, in which nothing stands for a part of a later code. -/
structure IsCodeTable (codes : List (Text × CodePoint)) : Prop where
  isCode : ∀ entry ∈ codes, IsCode entry.1
  length : ∀ entry ∈ codes, entry.1.length = 3
  distinct : (codes.map Prod.fst).Nodup
  ordered : codes.Pairwise fun entry later => entry.2 ∉ later.1

theorem isCodeTable_messageCodes : IsCodeTable messageCodes :=
  ⟨by decide, by decide, by decide, by decide⟩

theorem isCodeTable_propertyCodes : IsCodeTable propertyCodes :=
  ⟨by decide, by decide, by decide, by decide⟩

variable {codes : List (Text × CodePoint)} {entry : Text × CodePoint} {code mark s : Text}
  {c x : CodePoint}

theorem IsCode.exists_mark (h : IsCode code) :
    ∃ mark, code = .scalar '%' :: mark ∧ .scalar '%' ∉ mark := by
  obtain ⟨hhead, htail⟩ := h
  cases code with
  | nil => cases hhead
  | cons c mark => exact ⟨mark, by rw [Option.some.inj hhead], htail⟩

theorem decodeFrom_eq (codes : List (Text × CodePoint)) (skip : Nat) (s : Text) :
    decodeFrom codes skip s = decode codes (s.drop skip) := by
  induction s generalizing skip with
  | nil => cases skip <;> rfl
  | cons c s ih =>
    cases skip with
    | zero => rfl
    | succ skip => rw [decodeFrom, ih, List.drop_succ_cons]

theorem decode_of_codeAt?_eq_some (h : codeAt? codes (c :: s) = some entry) :
    decode codes (c :: s) = entry.2 :: decode codes (s.drop (entry.1.length - 1)) := by
  rw [decode, decodeFrom, h]
  exact congrArg (entry.2 :: ·) (decodeFrom_eq codes _ s)

theorem decode_of_codeAt?_eq_none (h : codeAt? codes (c :: s) = none) :
    decode codes (c :: s) = c :: decode codes s := by
  rw [decode, decodeFrom, h]
  rfl

theorem prefix_of_codeAt? (h : codeAt? codes s = some entry) : entry.1 <+: s := by
  rw [codeAt?] at h
  have hbegins := List.find?_some h
  exact Text.beginsWith_iff.mp hbegins

theorem codeAt?_eq_none (h : ∀ entry ∈ codes, IsCode entry.1) (hc : c ≠ .scalar '%') (s : Text) :
    codeAt? codes (c :: s) = none := by
  apply List.find?_eq_none.mpr
  intro entry hentry hbegins
  obtain ⟨mark, hmark, -⟩ := (h entry hentry).exists_mark
  rw [Text.beginsWith_iff, hmark, List.cons_prefix_cons] at hbegins
  exact hc hbegins.1.symm

theorem decode_nil (s : Text) : decode [] s = s := by
  induction s with
  | nil => rfl
  | cons c s ih => rw [decode_of_codeAt?_eq_none rfl, ih]

/-! ### One code after the other -/

/-- A replacement passes over units that are not part of a code. -/
theorem replace_mark_append (hcode : IsCode code) (hmark : .scalar '%' ∉ mark) (new s : Text) :
    replace code new (mark ++ s) = mark ++ replace code new s := by
  induction mark with
  | nil => rfl
  | cons c mark ih =>
    obtain ⟨rest, rfl, -⟩ := hcode.exists_mark
    rw [List.mem_cons, not_or] at hmark
    obtain ⟨hc, hrest⟩ := hmark
    have hprefix : ¬ .scalar '%' :: rest <+: c :: (mark ++ s) := by
      intro hprefix
      exact hc (List.cons_prefix_cons.mp hprefix).1
    rw [List.cons_append, Text.replace_of_not_prefix hprefix, ih hrest, List.cons_append]

/-- A replacement brings forth no text that holds nothing of what was put in. -/
theorem prefix_of_prefix_replace (hx : x ∉ mark) (h : mark <+: replace code [x] s) :
    mark <+: s := by
  induction mark generalizing s with
  | nil => exact List.nil_prefix
  | cons m mark ih =>
    rw [List.mem_cons, not_or] at hx
    obtain ⟨hm, hmark⟩ := hx
    cases s with
    | nil => exact h
    | cons c s =>
      by_cases hcode : code <+: c :: s
      · rw [Text.replace_of_prefix hcode] at h
        exact absurd (List.cons_prefix_cons.mp h).1.symm hm
      · rw [Text.replace_of_not_prefix hcode, List.cons_prefix_cons] at h
        exact List.cons_prefix_cons.mpr ⟨h.1, ih hmark h.2⟩

/-- Replacing a code leaves the later codes where they were. -/
theorem codeAt?_replace (hcode : IsCode code)
    (hcodes : ∀ entry ∈ codes, IsCode entry.1 ∧ x ∉ entry.1) (c : CodePoint) (s : Text) :
    codeAt? codes (c :: replace code [x] s) = codeAt? codes (c :: s) := by
  apply List.find?_congr
  intro entry hentry
  obtain ⟨hentryCode, hx⟩ := hcodes entry hentry
  obtain ⟨mark, hmark, hpercent⟩ := hentryCode.exists_mark
  rw [hmark] at hx ⊢
  rw [Bool.eq_iff_iff, Text.beginsWith_iff, Text.beginsWith_iff, List.cons_prefix_cons,
    List.cons_prefix_cons]
  apply and_congr_right
  intro _
  constructor
  · exact prefix_of_prefix_replace fun hmem => hx (List.mem_cons_of_mem _ hmem)
  · rintro ⟨rest, rfl⟩
    rw [replace_mark_append hcode hpercent]
    exact List.prefix_append mark _

/-- To replace a code before all others is to replace it together with them. -/
theorem decode_replace (hcode : IsCode code)
    (hcodes : ∀ entry ∈ codes, IsCode entry.1 ∧ x ∉ entry.1) (s : Text) :
    decode codes (replace code [x] s) = decode ((code, x) :: codes) s := by
  induction hn : s.length using Nat.strong_induction_on generalizing s with
  | h n ih =>
    subst hn
    cases s with
    | nil => rfl
    | cons c s =>
      have hrest (k : Nat) : decode codes (replace code [x] (s.drop k)) =
          decode ((code, x) :: codes) (s.drop k) := by
        apply ih (s.drop k).length ?_ _ rfl
        simp only [List.length_drop, List.length_cons]
        omega
      by_cases hfirst : code <+: c :: s
      · have hat : codeAt? ((code, x) :: codes) (c :: s) = some (code, x) :=
          List.find?_cons_of_pos (Text.beginsWith_iff.mpr hfirst)
        have hx : codeAt? codes (x :: replace code [x] (s.drop (code.length - 1))) = none := by
          cases codes with
          | nil => rfl
          | cons entry codes =>
            apply codeAt?_eq_none fun entry hentry => (hcodes entry hentry).1
            rintro rfl
            obtain ⟨hentry, hpercent⟩ := hcodes entry List.mem_cons_self
            exact hpercent (List.mem_of_mem_head? hentry.1)
        rw [Text.replace_of_prefix hfirst, List.singleton_append, decode_of_codeAt?_eq_none hx,
          decode_of_codeAt?_eq_some hat, hrest]
      · have hat : codeAt? ((code, x) :: codes) (c :: s) = codeAt? codes (c :: s) :=
          List.find?_cons_of_neg (mt Text.beginsWith_iff.mp hfirst)
        have hreplaced := codeAt?_replace hcode hcodes c s
        rw [Text.replace_of_not_prefix hfirst]
        cases hlater : codeAt? codes (c :: s) with
        | none =>
          rw [hlater] at hat hreplaced
          have htail := hrest 0
          rw [decode_of_codeAt?_eq_none hreplaced, decode_of_codeAt?_eq_none hat]
          exact congrArg (c :: ·) htail
        | some entry =>
          rw [hlater] at hat hreplaced
          rw [decode_of_codeAt?_eq_some hreplaced, decode_of_codeAt?_eq_some hat, ← hrest]
          -- the later code stands in the text as a whole, and nothing is replaced in it
          have hmem : entry ∈ codes := List.mem_of_find?_eq_some hlater
          obtain ⟨mark, hmark, hpercent⟩ := (hcodes entry hmem).1.exists_mark
          have hprefix := prefix_of_codeAt? hlater
          rw [hmark, List.cons_prefix_cons] at hprefix
          obtain ⟨-, rest, rfl⟩ := hprefix
          rw [hmark, List.length_cons, Nat.add_sub_cancel, replace_mark_append hcode hpercent,
            List.drop_left, List.drop_left]

/-- Replacing the codes of a table one after the other is a single pass over the text. -/
theorem unescape_eq_decode (hcode : ∀ entry ∈ codes, IsCode entry.1)
    (hordered : codes.Pairwise fun entry later => entry.2 ∉ later.1) (s : Text) :
    unescape codes s = decode codes s := by
  induction codes generalizing s with
  | nil => exact (decode_nil s).symm
  | cons entry codes ih =>
    obtain ⟨hentry, hcodes⟩ := List.forall_mem_cons.mp hcode
    obtain ⟨hlater, hordered⟩ := List.pairwise_cons.mp hordered
    rw [← decode_replace hentry (fun later hmem => ⟨hcodes later hmem, hlater later hmem⟩),
      ← ih hcodes hordered]
    rfl

/-! ### Escaped texts -/

/-- A unit as it is written: its code, if it has one. -/
def escapeUnit (codes : List (Text × CodePoint)) (c : CodePoint) : Text :=
  match codes.find? fun entry => entry.2 = c with
  | some entry => entry.1
  | none => [c]

/-- The text with codes for the units that have one. -/
def escape (codes : List (Text × CodePoint)) (s : Text) : Text := s.flatMap (escapeUnit codes)

def escapeMessage (s : Text) : Text := escape messageCodes s

def escapeProperty (s : Text) : Text := escape propertyCodes s

theorem escapeUnit_cases (codes : List (Text × CodePoint)) (c : CodePoint) :
    (∃ entry ∈ codes, entry.2 = c ∧ escapeUnit codes c = entry.1) ∨
      c ∉ codes.map Prod.snd ∧ escapeUnit codes c = [c] := by
  unfold escapeUnit
  cases h : codes.find? fun entry => entry.2 = c with
  | some entry =>
    exact Or.inl ⟨entry, List.mem_of_find?_eq_some h, by simpa using List.find?_some h, rfl⟩
  | none =>
    refine Or.inr ⟨?_, rfl⟩
    intro hmem
    obtain ⟨entry, hentry, rfl⟩ := List.mem_map.mp hmem
    exact List.find?_eq_none.mp h entry hentry (decide_eq_true rfl)

/-- An escaped text consists of codes and of units that have none. -/
theorem mem_of_mem_escape (h : c ∈ escape codes s) :
    (∃ entry ∈ codes, c ∈ entry.1) ∨ c ∈ s ∧ c ∉ codes.map Prod.snd := by
  obtain ⟨x, hx, hc⟩ := List.mem_flatMap.mp h
  rcases escapeUnit_cases codes x with ⟨entry, hentry, -, hunit⟩ | ⟨hnone, hunit⟩
  · rw [hunit] at hc
    exact Or.inl ⟨entry, hentry, hc⟩
  · rw [hunit, List.mem_singleton] at hc
    subst hc
    exact Or.inr ⟨hx, hnone⟩

/-- No unit that has a code stands in an escaped text, but for those that codes are made of. -/
theorem not_mem_escape (hcode : c ∈ codes.map Prod.snd) (hcodes : ∀ entry ∈ codes, c ∉ entry.1)
    (s : Text) : c ∉ escape codes s := by
  intro h
  rcases mem_of_mem_escape h with ⟨entry, hentry, hc⟩ | ⟨-, hnone⟩
  · exact hcodes entry hentry hc
  · exact hnone hcode

theorem codeAt?_code (h : IsCodeTable codes) (hentry : entry ∈ codes) (s : Text) :
    codeAt? codes (entry.1 ++ s) = some entry := by
  have hbegins : Text.beginsWith entry.1 (entry.1 ++ s) = true :=
    Text.beginsWith_iff.mpr (List.prefix_append _ _)
  cases hat : codeAt? codes (entry.1 ++ s) with
  | none => exact absurd hbegins (List.find?_eq_none.mp hat entry hentry)
  | some other =>
    have hother : other ∈ codes := List.mem_of_find?_eq_some hat
    have hlength : other.1.length = entry.1.length := by
      rw [h.length other hother, h.length entry hentry]
    have hprefix : other.1 <+: entry.1 :=
      List.prefix_of_prefix_length_le (prefix_of_codeAt? hat)
        (List.prefix_append _ _) (by omega)
    have hcode : other.1 = entry.1 := hprefix.eq_of_length hlength
    rw [List.inj_on_of_nodup_map h.distinct hother hentry hcode]

/-- A single pass over an escaped text gives the text itself. -/
theorem decode_escape (h : IsCodeTable codes) (hpercent : .scalar '%' ∈ codes.map Prod.snd)
    (s : Text) : decode codes (escape codes s) = s := by
  induction s with
  | nil => rfl
  | cons c s ih =>
    rw [escape, List.flatMap_cons, ← escape]
    rcases escapeUnit_cases codes c with ⟨entry, hentry, rfl, hunit⟩ | ⟨hnone, hunit⟩
    · have hat := codeAt?_code h hentry (escape codes s)
      obtain ⟨mark, hmark, -⟩ := (h.isCode entry hentry).exists_mark
      rw [hunit]
      rw [hmark, List.cons_append] at hat ⊢
      rw [decode_of_codeAt?_eq_some hat, hmark, List.length_cons, Nat.add_sub_cancel,
        List.drop_left, ih]
    · have hc : c ≠ .scalar '%' := fun heq => hnone (heq ▸ hpercent)
      rw [hunit, List.singleton_append, decode_of_codeAt?_eq_none (codeAt?_eq_none h.isCode hc _),
        ih]

theorem unescapeMessage_escapeMessage (s : Text) : unescapeMessage (escapeMessage s) = s := by
  have h := isCodeTable_messageCodes
  rw [unescapeMessage, unescape_eq_decode h.isCode h.ordered]
  exact decode_escape h (by decide) s

theorem unescapeProperty_escapeProperty (s : Text) : unescapeProperty (escapeProperty s) = s := by
  have h := isCodeTable_propertyCodes
  rw [unescapeProperty, unescape_eq_decode h.isCode h.ordered]
  exact decode_escape h (by decide) s

/-- What was read from codes was in the text, or a code stands for it. -/
theorem mem_of_mem_unescape (h : c ∈ unescape codes s) : c ∈ s ∨ c ∈ codes.map Prod.snd := by
  induction codes generalizing s with
  | nil => exact Or.inl h
  | cons entry codes ih =>
    rcases ih (s := replace entry.1 [entry.2] s) h with h | h
    · rcases Text.mem_of_mem_replace h with h | h
      · exact Or.inl h
      · rw [List.mem_singleton.mp h]
        exact Or.inr List.mem_cons_self
    · exact Or.inr (List.mem_cons_of_mem _ h)

end Output.Annotation

end LintReport
