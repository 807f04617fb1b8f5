import LintReport.Number.Written
import LintReport.Proofs.Json.Token
import LintReport.Proofs.Number.Whole
import LintReport.Proofs.Text.Fields
import LintReport.Proofs.Text.Trimmed

/-!
Numbers with spaces around them. A whole number is read without the white space around it, so spaces
change nothing. A double is read that way too, unless an underscore stands in it: then any white
space is a mistake.
-/
namespace LintReport.Text

variable {s s' : Text} {c : CodePoint} {x : Binary64}

/-! ### Spaces -/

/-- The second text is the first one with spaces around it. -/
def Spaced (s s' : Text) : Prop :=
  ∃ before after : Text, s' = before ++ s ++ after ∧
    (∀ c ∈ before, c = .scalar ' ') ∧ ∀ c ∈ after, c = .scalar ' '

theorem Spaced.trim_eq {drop : CodePoint → Bool} (hdrop : drop (.scalar ' ') = true)
    (h : Spaced s s') : trim drop s' = trim drop s := by
  obtain ⟨before, after, rfl, hbefore, hafter⟩ := h
  exact trim_append (fun c hc => hbefore c hc ▸ hdrop) (fun c hc => hafter c hc ▸ hdrop) s

theorem Spaced.mem_iff (hc : c ≠ .scalar ' ') (h : Spaced s s') : c ∈ s' ↔ c ∈ s := by
  obtain ⟨before, after, rfl, hbefore, hafter⟩ := h
  rw [List.mem_append, List.mem_append]
  exact ⟨fun hmem => (hmem.resolve_right (mt (hafter c) hc)).resolve_left (mt (hbefore c) hc),
    fun hmem => .inl (.inr hmem)⟩

/-- A text that is not the same any more has a space. -/
theorem Spaced.mem_space (h : Spaced s s') (hne : s' ≠ s) : .scalar ' ' ∈ s' := by
  obtain ⟨before, after, rfl, hbefore, hafter⟩ := h
  cases before with
  | cons c before =>
    rw [← hbefore c List.mem_cons_self]
    exact List.mem_cons_self
  | nil =>
    cases after with
    | cons c after =>
      rw [← hafter c List.mem_cons_self]
      exact List.mem_append_right _ List.mem_cons_self
    | nil => exact absurd (List.append_nil s) hne

/-! ### Doubles -/

/-- A unit that is neither white space nor an underscore. -/
def IsSolid (c : CodePoint) : Prop := c.isWhiteSpace = false ∧ c ≠ .scalar '_'

theorem isSolid_of_value (h : 0x21 ≤ c.value ∧ c.value < 0x7F) (hne : c.value ≠ 0x5F) :
    IsSolid c := by
  refine ⟨?_, fun hc => hne (hc ▸ rfl)⟩
  rw [CodePoint.isWhiteSpace, CodePoint.inRanges, List.any_eq_false]
  have hapart : ∀ r ∈ whiteSpaceRanges, r.2 ≤ 0x20 ∨ 0x7F ≤ r.1 := by decide
  intro r hr
  have hr := hapart r hr
  simp only [Bool.and_eq_true, decide_eq_true_eq]
  omega

theorem isSolid_of_asciiDigit? (h : c.asciiDigit?.isSome) : IsSolid c := by
  obtain ⟨d, hd⟩ := Option.isSome_iff_exists.mp h
  have hvalue := Json.value_of_asciiDigit? hd
  exact isSolid_of_value (by omega) (by omega)

theorem isSolid_of_asciiLower (h : IsSolid c.asciiLower) : IsSolid c := by
  cases c with
  | surrogate half => exact h
  | scalar c =>
    by_cases hcapital : 'A' ≤ c ∧ c ≤ 'Z'
    · have hlow : 'A'.toNat ≤ c.toNat := hcapital.1
      have hhigh : c.toNat ≤ 'Z'.toNat := hcapital.2
      have hA : 'A'.toNat = 0x41 := rfl
      have hZ : 'Z'.toNat = 0x5A := rfl
      have hvalue : (CodePoint.scalar c).value = c.toNat := rfl
      exact isSolid_of_value (by omega) (by omega)
    · have hlower : c.toLower = c := dif_neg hcapital
      rwa [CodePoint.asciiLower, hlower] at h

theorem isSolid_of_splitSign (h : ∀ c ∈ (splitSign s).2, IsSolid c) : ∀ c ∈ s, IsSolid c := by
  unfold splitSign at h
  split at h
  · exact List.forall_mem_cons.mpr ⟨isSolid_of_value (by decide) (by decide), h⟩
  · exact List.forall_mem_cons.mpr ⟨isSolid_of_value (by decide) (by decide), h⟩
  · exact h

theorem isSolid_of_asciiLower_eq {word : Text} (hword : ∀ c ∈ word, IsSolid c)
    (h : s.asciiLower = word) : ∀ c ∈ s, IsSolid c := fun _ hc =>
  isSolid_of_asciiLower (hword _ (h ▸ List.mem_map_of_mem hc))

theorem isSolid_of_mapM {ds : List Nat} (h : s.mapM CodePoint.asciiDigit? = some ds) :
    ∀ c ∈ s, IsSolid c := by
  induction s generalizing ds with
  | nil => exact nofun
  | cons c s ih =>
    rw [List.mapM_cons] at h
    obtain ⟨d, hd, h⟩ := Option.bind_eq_some_iff.mp h
    obtain ⟨ds', hds, -⟩ := Option.bind_eq_some_iff.mp h
    exact List.forall_mem_cons.mpr ⟨isSolid_of_asciiDigit? (by rw [hd]; rfl), ih hds⟩

theorem isSolid_of_exponent? {e : Int} (h : exponent? s = some e) : ∀ c ∈ s, IsSolid c := by
  cases s with
  | nil => exact nofun
  | cons c s =>
    rw [exponent?] at h
    split at h
    · next hc =>
      obtain ⟨ds, hds, -⟩ := Option.bind_eq_some_iff.mp h
      refine List.forall_mem_cons.mpr ⟨?_, isSolid_of_splitSign (isSolid_of_mapM hds)⟩
      rcases hc with rfl | rfl <;> exact isSolid_of_value (by decide) (by decide)
    · cases h

theorem isSolid_of_spanDigits (h : ∀ c ∈ (spanDigits CodePoint.asciiDigit? s).2, IsSolid c) :
    ∀ c ∈ s, IsSolid c := by
  obtain ⟨digits, hs, hdigits, -⟩ := spanDigits_eq CodePoint.asciiDigit? s
  rw [hs]
  exact List.forall_mem_append.mpr ⟨fun c hc => isSolid_of_asciiDigit? (hdigits c hc), h⟩

theorem isSolid_of_decimal? {negative : Bool} (h : decimal? negative s = some x) :
    ∀ c ∈ s, IsSolid c := by
  refine isSolid_of_spanDigits ?_
  unfold decimal? at h
  generalize spanDigits CodePoint.asciiDigit? s = span at h ⊢
  obtain ⟨whole, r⟩ := span
  dsimp only at h ⊢
  split at h
  · next rest =>
    split at h
    · cases h
    · obtain ⟨e, he, -⟩ := Option.map_eq_some_iff.mp h
      exact List.forall_mem_cons.mpr ⟨isSolid_of_value (by decide) (by decide),
        isSolid_of_spanDigits (isSolid_of_exponent? he)⟩
  · split at h
    · cases h
    · obtain ⟨e, he, -⟩ := Option.map_eq_some_iff.mp h
      exact isSolid_of_exponent? he

/-- What spells a double has neither white space nor an underscore in it. -/
theorem isSolid_of_plainBinary64? (h : plainBinary64? s = some x) : ∀ c ∈ s, IsSolid c := by
  have hwords : ∀ word ∈ [ofString "inf", ofString "infinity", ofString "nan"], ∀ c ∈ word,
      0x21 ≤ c.value ∧ c.value < 0x7F ∧ c.value ≠ 0x5F := by decide
  have hword {word : Text} (hmem : word ∈ [ofString "inf", ofString "infinity", ofString "nan"])
      (heq : (splitSign s).2.asciiLower = word) : ∀ c ∈ (splitSign s).2, IsSolid c :=
    isSolid_of_asciiLower_eq (fun c hc =>
      isSolid_of_value ⟨(hwords _ hmem c hc).1, (hwords _ hmem c hc).2.1⟩
        (hwords _ hmem c hc).2.2) heq
  refine isSolid_of_splitSign ?_
  unfold plainBinary64? at h
  dsimp only at h
  split at h
  · next hinf => rcases hinf with heq | heq <;> exact hword (by decide) heq
  · split at h
    · next heq => exact hword (by decide) heq
    · exact isSolid_of_decimal? h

/-- An underscore keeps a text from being read without the white space around it. -/
theorem toBinary64?_of_not_mem (h : .scalar '_' ∉ s) :
    s.toBinary64? = plainBinary64? s.trimWhiteSpace := by
  have hbare : ((withoutUnderscores? s).bind plainBinary64?) = plainBinary64? s := by
    rw [withoutUnderscores?, fields_of_not_mem h]
    cases s with
    | nil => rfl
    | cons c s => rw [if_neg (by simp), List.flatten_singleton, Option.bind_some]
  rw [toBinary64?, hbare]
  cases hplain : plainBinary64? s with
  | none => rw [Option.or_none]
  | some x =>
    have hsolid := isSolid_of_plainBinary64? hplain
    have htrim : s.trimWhiteSpace = s := trim_eq_self
      (fun c hc => (hsolid c (List.mem_of_mem_head? hc)).1)
      (fun c hc => (hsolid c (List.mem_of_mem_getLast? hc)).1)
    rw [htrim, hplain, Option.or_some]
    rfl

/-- With an underscore in it a text that has a space spells no double. -/
theorem toBinary64?_of_mem (hunderscore : .scalar '_' ∈ s) (hspace : .scalar ' ' ∈ s) :
    s.toBinary64? = none := by
  have hplain {t : Text} {c : CodePoint} (hc : c ∈ t) (hsolid : ¬ IsSolid c) :
      plainBinary64? t = none :=
    Option.eq_none_iff_forall_ne_some.mpr fun x hx => hsolid (isSolid_of_plainBinary64? hx c hc)
  have htrimmed : plainBinary64? s.trimWhiteSpace = none :=
    hplain (mem_trim hunderscore (by decide)) fun h => h.2 rfl
  rw [toBinary64?, htrimmed, Option.none_or, Option.bind_eq_none_iff]
  intro t ht
  have hkept : .scalar ' ' ∈ (fields (.scalar '_') s).flatten :=
    List.mem_flatten.mpr (exists_mem_fields hspace (by decide))
  unfold withoutUnderscores? at ht
  dsimp only at ht
  split at ht
  · cases ht
  · exact hplain (Option.some.inj ht ▸ hkept) fun h => absurd h.1 (by decide)

/-- Spaces around a text change the double that it spells only where there is an underscore; then it
spells none. -/
theorem Spaced.toBinary64?_eq (h : Spaced s s') (hne : s' ≠ s) :
    s'.toBinary64? = if .scalar '_' ∈ s then none else s.toBinary64? := by
  have hmem : .scalar '_' ∈ s' ↔ .scalar '_' ∈ s := h.mem_iff (by decide)
  split
  · next hunderscore => exact toBinary64?_of_mem (hmem.mpr hunderscore) (h.mem_space hne)
  · next hnot =>
    rw [toBinary64?_of_not_mem (mt hmem.mp hnot), toBinary64?_of_not_mem hnot, trimWhiteSpace,
      trimWhiteSpace, h.trim_eq (by decide)]

/-! ### Whole numbers -/

/-- A text begins with more digits than are read, a zero not being the first of them. -/
def BeginsTooLong (s : Text) : Prop :=
  ∃ digits rest, s = digits ++ rest ∧ (∀ c ∈ digits, c.asciiDigit?.isSome) ∧
    digits.head? ≠ some (.scalar '0') ∧ maxDigits < digits.length

theorem beginsTooLong_of_startsTooLong (h : s.startsTooLong = true) :
    BeginsTooLong (splitMinus s).2 := by
  obtain ⟨digits, hs, hdigits, hvalues, hlength⟩ :=
    spanDigits_eq CodePoint.asciiDigit? (splitMinus s).2
  simp only [startsTooLong, Bool.and_eq_true, decide_eq_true_eq] at h
  refine ⟨digits, _, hs, hdigits, fun hhead => h.1 ?_, by omega⟩
  obtain ⟨rest, rfl⟩ := List.head?_eq_some_iff.mp hhead
  rw [hvalues]
  rfl

namespace BeginsTooLong

theorem exists_cons (h : BeginsTooLong s) :
    ∃ c rest, s = c :: rest ∧ c.isLeadingDigit = true := by
  obtain ⟨digits, rest, rfl, hdigits, hhead, hlength⟩ := h
  cases digits with
  | nil => cases hlength
  | cons c digits =>
    refine ⟨c, digits ++ rest, rfl, ?_⟩
    have hc : c ≠ .scalar '0' := fun hc => hhead (congrArg some hc)
    simp [CodePoint.isLeadingDigit, CodePoint.isAsciiDigit, hdigits c List.mem_cons_self, hc]

theorem splitMinus_eq (h : BeginsTooLong s) : splitMinus s = (false, s) := by
  obtain ⟨c, rest, rfl, hc⟩ := h.exists_cons
  unfold splitMinus
  split
  · next heq =>
    cases heq
    exact absurd hc (by decide)
  · rfl

theorem splitSign_eq (h : BeginsTooLong s) : splitSign s = (false, s) := by
  obtain ⟨c, rest, rfl, hc⟩ := h.exists_cons
  unfold splitSign
  split
  · next heq =>
    cases heq
    exact absurd hc (by decide)
  · next heq =>
    cases heq
    exact absurd hc (by decide)
  · rfl

theorem withoutZeros?_eq (h : BeginsTooLong s) : withoutZeros? s = some s := by
  obtain ⟨c, rest, rfl, hc⟩ := h.exists_cons
  exact if_pos hc

/-- What is cut off behind a unit that is no digit leaves the digits there. -/
theorem of_cut (h : BeginsTooLong s) {before rest : Text} (hs : s = before ++ rest)
    (hrest : ∀ c ∈ rest.head?, c.asciiDigit? = none) : BeginsTooLong before := by
  obtain ⟨digits, tail, rfl, hdigits, hhead, hlength⟩ := h
  rcases List.append_eq_append_iff.mp hs with ⟨more, rfl, -⟩ | ⟨more, rfl, hmore⟩
  · exact ⟨digits, more, rfl, hdigits, hhead, hlength⟩
  · cases more with
    | nil =>
      rw [List.append_nil] at hdigits hhead hlength
      exact ⟨before, [], (List.append_nil _).symm, hdigits, hhead, hlength⟩
    | cons c more =>
      rw [hmore] at hrest
      have hnone := hrest c rfl
      have hsome := hdigits c (List.mem_append_right _ List.mem_cons_self)
      rw [hnone] at hsome
      cases hsome

theorem withoutZeroFraction (h : BeginsTooLong s) : BeginsTooLong s.withoutZeroFraction := by
  unfold Text.withoutZeroFraction
  split
  · next whole c fraction hcut =>
    split
    · refine h.of_cut ((eq_of_cut?_eq_some hcut).trans (List.append_assoc ..)) fun x hx => ?_
      cases hx
      decide
    · exact h
  · exact h

theorem withoutUnderscores (h : BeginsTooLong s) :
    BeginsTooLong ((withoutUnderscores? s).getD s) := by
  unfold withoutUnderscores?
  dsimp only
  split
  · exact h
  · obtain ⟨digits, rest, rfl, hdigits, hhead, hlength⟩ := h
    have hnot : .scalar '_' ∉ digits := fun hmem => absurd (hdigits _ hmem) (by decide)
    obtain ⟨part, parts, hfields⟩ := exists_fields_append hnot rest
    rw [hfields]
    exact ⟨digits, part ++ parts.flatten, List.append_assoc .., hdigits, hhead, hlength⟩

theorem plainInteger?_eq (h : BeginsTooLong s) (negative : Bool) :
    plainInteger? (if negative then .scalar '-' :: s else s) = none := by
  have hsplit : splitMinus (if negative then .scalar '-' :: s else s) = (negative, s) := by
    cases negative with
    | false => exact h.splitMinus_eq
    | true => rfl
  obtain ⟨digits, rest, rfl, hdigits, -, hlength⟩ := h
  have hlong := length_le_spanDigits hdigits rest
  unfold plainInteger?
  rw [hsplit]
  exact if_pos (.inr (.inr (.inl (Nat.lt_of_lt_of_le hlength hlong))))

theorem unsignedWhole?_eq (h : BeginsTooLong s) (negative : Bool) :
    unsignedWhole? negative s = none := by
  rw [unsignedWhole?, h.withoutZeros?_eq]
  exact h.withoutZeroFraction.withoutUnderscores.plainInteger?_eq negative

/-- Digits at the start, behind a sign or not, are not lost with the white space around. -/
theorem exists_trimWhiteSpace (h : BeginsTooLong s) (sign : Text) (hsign : ∀ c ∈ sign, IsSolid c) :
    ∃ kept, BeginsTooLong kept ∧ (sign ++ s).trimWhiteSpace = sign ++ kept := by
  obtain ⟨digits, rest, rfl, hdigits, hhead, hlength⟩ := h
  have hsolid : ∀ c ∈ sign ++ digits, c.isWhiteSpace = false :=
    List.forall_mem_append.mpr ⟨fun c hc => (hsign c hc).1,
      fun c hc => (isSolid_of_asciiDigit? (hdigits c hc)).1⟩
  have hstart : (sign ++ digits ++ rest).dropWhile CodePoint.isWhiteSpace =
      sign ++ digits ++ rest := by
    obtain ⟨c, more, hc⟩ : ∃ c more, sign ++ digits = c :: more :=
      List.exists_cons_of_ne_nil (List.append_ne_nil_of_right_ne_nil _
        (List.length_pos_iff.mp (Nat.zero_lt_of_lt hlength)))
    have hfirst := hsolid c (hc ▸ List.mem_cons_self)
    rw [hc]
    exact List.dropWhile_cons_of_neg (by simp [hfirst])
  obtain ⟨kept, hkept⟩ : ∃ kept, trimRight CodePoint.isWhiteSpace (sign ++ digits ++ rest) =
      sign ++ digits ++ kept :=
    exists_trimRight_append (fun c hc => hsolid c (List.mem_of_mem_getLast? hc)) rest
  refine ⟨digits ++ kept, ⟨digits, kept, rfl, hdigits, hhead, hlength⟩, ?_⟩
  rw [← List.append_assoc, trimWhiteSpace, trim, hstart, hkept, List.append_assoc]

theorem splitSign_trimWhiteSpace (h : BeginsTooLong (splitMinus s).2) :
    BeginsTooLong (splitSign s.trimWhiteSpace).2 := by
  unfold splitMinus at h
  split at h
  · next body =>
    obtain ⟨kept, hkept, htrim⟩ := h.exists_trimWhiteSpace [.scalar '-']
      (List.forall_mem_singleton.mpr (isSolid_of_value (by decide) (by decide)))
    rw [← List.singleton_append, htrim]
    exact hkept
  · obtain ⟨kept, hkept, htrim⟩ := h.exists_trimWhiteSpace [] nofun
    rw [List.nil_append] at htrim
    rw [htrim, List.nil_append, hkept.splitSign_eq]
    exact hkept

end BeginsTooLong

/-- A text with too many digits spells no whole number anyway. -/
theorem toOption_toWholeNumber (s : Text) : s.toWholeNumber.toOption =
    unsignedWhole? (splitSign s.trimWhiteSpace).1 (splitSign s.trimWhiteSpace).2 := by
  unfold toWholeNumber
  split
  · next hlong =>
    have hbegins := (beginsTooLong_of_startsTooLong hlong).splitSign_trimWhiteSpace
    exact (hbegins.unsignedWhole?_eq _).symm
  · dsimp only
    cases unsignedWhole? (splitSign s.trimWhiteSpace).1 (splitSign s.trimWhiteSpace).2 <;> rfl

/-- Spaces around a text do not change the whole number that it spells. -/
theorem Spaced.toOption_toWholeNumber_eq (h : Spaced s s') :
    s'.toWholeNumber.toOption = s.toWholeNumber.toOption := by
  have htrim : s'.trimWhiteSpace = s.trimWhiteSpace := h.trim_eq (by decide)
  rw [toOption_toWholeNumber, toOption_toWholeNumber, htrim]

end LintReport.Text
