import Mathlib.Data.List.TakeWhile
import Mathlib.Data.Nat.Find
import LintReport.Output.Hunk
import LintReport.Proofs.Number.Whole
import LintReport.Proofs.Text.Cut

/-!
Hunk headers in a diff. The line of a change is estimated from the first header in the diff. The names
of the two sides of the diff may stand before a header, but they hold no part of one, so it makes no
difference that they are looked for as well; and what follows the header is not looked at.
-/
namespace LintReport.Output

variable {s rest run gap mark before diff : Text} {ds : List Nat} {c : CodePoint}

/-! ### Headers -/

/-- Digits of any script, at least one. -/
def IsNumber (s : Text) : Prop := s ≠ [] ∧ ∀ c ∈ s, c.isDigit = true

instance (s : Text) : Decidable (IsNumber s) :=
  inferInstanceAs (Decidable (s ≠ [] ∧ ∀ c ∈ s, c.isDigit = true))

/-- Two numbers with a comma between them: a first line, and how many there are. -/
structure LineRange where
  start : Text
  count : Text
  isNumber_start : IsNumber start
  isNumber_count : IsNumber count

def LineRange.text (range : LineRange) : Text := range.start ++ (.scalar ',' :: range.count)

/-- The digits of the first line. -/
def LineRange.digits (range : LineRange) : List Nat := range.start.filterMap CodePoint.digit?

/-- A hunk header: the lines of a hunk on the old and on the new side, with blanks around them. -/
structure Header where
  gapOld : Text
  old : LineRange
  gapNew : Text
  new : LineRange
  gapEnd : Text
  blank : ∀ c ∈ gapOld ++ gapNew ++ gapEnd, c.isBlank = true

namespace Header

/-- What stands between the marks at the two ends. -/
def middle (h : Header) : Text :=
  h.gapOld ++ (.scalar '-' :: (h.old.text ++ (h.gapNew ++ (.scalar '+' :: (h.new.text ++ h.gapEnd)))))

def text (h : Header) : Text := "@@" ++ (h.middle ++ "@@")

/-- The number of the first line on the old side. -/
def line (h : Header) : Nat := ofDigits h.old.digits

theorem blank_gaps (h : Header) : (∀ c ∈ h.gapOld, c.isBlank = true) ∧
    (∀ c ∈ h.gapNew, c.isBlank = true) ∧ ∀ c ∈ h.gapEnd, c.isBlank = true := by
  obtain ⟨hgaps, hend⟩ := List.forall_mem_append.mp h.blank
  obtain ⟨hold, hnew⟩ := List.forall_mem_append.mp hgaps
  exact ⟨hold, hnew, hend⟩

end Header

/-- A header that stands in a diff, and none begins before it. -/
structure IsFirst (before : Text) (header : Header) (diff : Text) : Prop where
  stands : before ++ header.text <+: diff
  first : ∀ before' header', before' ++ Header.text header' <+: diff → before.length ≤ before'.length

/-! ### Blanks and digits -/

/-- No blank is a digit. -/
theorem isDigit_of_isBlank (h : c.isBlank = true) : c.isDigit = false := by
  have hapart : ∀ r ∈ (0x1C, 0x1F) :: whiteSpaceRanges, ∀ z ∈ digitZeros, r.2 < z ∨ z + 10 ≤ r.1 := by
    decide
  obtain ⟨r, hr, hlow, hhigh⟩ :
      ∃ r ∈ (0x1C, 0x1F) :: whiteSpaceRanges, r.1 ≤ c.value ∧ c.value ≤ r.2 := by
    rw [CodePoint.isBlank, Bool.or_eq_true] at h
    rcases h with h | h
    · obtain ⟨r, hr, hvalue⟩ := List.any_eq_true.mp h
      rw [Bool.and_eq_true, decide_eq_true_eq, decide_eq_true_eq] at hvalue
      exact ⟨r, List.mem_cons_of_mem _ hr, hvalue⟩
    · rw [Bool.and_eq_true, decide_eq_true_eq, decide_eq_true_eq] at h
      exact ⟨_, List.mem_cons_self, h⟩
  rw [CodePoint.isDigit, CodePoint.digit?, Option.isSome_map, Option.isSome_eq_false_iff,
    Option.isNone_iff_eq_none, List.find?_eq_none]
  intro z hz hvalue
  rw [Bool.and_eq_true, decide_eq_true_eq, decide_eq_true_eq] at hvalue
  have := hapart r hr z hz
  omega

theorem digits?_append (hrun : IsNumber run) (hstop : ∀ c ∈ rest.head?, c.isDigit = false) :
    digits? (run ++ rest) = some (run.filterMap CodePoint.digit?, rest) := by
  have hrest : rest.spanDigits CodePoint.digit? = ([], rest) := by
    cases rest with
    | nil => rfl
    | cons c rest =>
      have hc : c.digit? = none :=
        Option.isNone_iff_eq_none.mp (Option.isSome_eq_false_iff.mp (hstop c rfl))
      rw [Text.spanDigits, hc]
  have hspan := Text.spanDigits_append hrun.2 rest
  rw [hrest, List.append_nil] at hspan
  have hne : run.filterMap CodePoint.digit? ≠ [] := by
    intro hnil
    have hlength := List.filterMap_length_eq_length.mpr hrun.2
    rw [hnil] at hlength
    exact hrun.1 (List.length_eq_zero_iff.mp hlength.symm)
  unfold digits?
  rw [hspan]
  split
  · next heq => exact absurd (congrArg Prod.fst heq) hne
  · rfl

theorem exists_of_digits? (h : digits? s = some (ds, rest)) :
    ∃ run, IsNumber run ∧ s = run ++ rest ∧ ds = run.filterMap CodePoint.digit? := by
  obtain ⟨run, hs, hdigits, hvalues, -⟩ := Text.spanDigits_eq CodePoint.digit? s
  unfold digits? at h
  split at h
  · cases h
  · next hne =>
    have hspan : s.spanDigits CodePoint.digit? = (ds, rest) := Option.some.inj h
    rw [hspan] at hs hvalues
    refine ⟨run, ⟨?_, hdigits⟩, hs, hvalues⟩
    rintro rfl
    obtain rfl : ds = [] := hvalues
    exact hne rest hspan

theorem range?_append (range : LineRange) (hstop : ∀ c ∈ rest.head?, c.isDigit = false) :
    range? (range.text ++ rest) = some (range.digits, rest) := by
  have hcomma : ∀ c ∈ (CodePoint.scalar ',' :: (range.count ++ rest)).head?, c.isDigit = false := by
    rintro c ⟨⟩
    decide
  have hcount : Text.after? "," (.scalar ',' :: (range.count ++ rest)) = some (range.count ++ rest) :=
    Text.after?_eq_some.mpr rfl
  rw [LineRange.text, List.append_assoc, List.cons_append, range?,
    digits?_append range.isNumber_start hcomma]
  simp only [Option.bind_eq_bind, Option.bind_some, hcount, digits?_append range.isNumber_count hstop]
  rfl

theorem exists_of_range? (h : range? s = some (ds, rest)) :
    ∃ range : LineRange, s = range.text ++ rest ∧ ds = range.digits := by
  simp only [range?, Option.bind_eq_bind, Option.bind_eq_some_iff] at h
  obtain ⟨⟨ds', s₁⟩, hstart, s₂, hcomma, ⟨ds₂, s₃⟩, hcount, heq⟩ := h
  cases heq
  obtain ⟨start, hisStart, rfl, rfl⟩ := exists_of_digits? hstart
  obtain ⟨count, hisCount, rfl, -⟩ := exists_of_digits? hcount
  refine ⟨⟨start, count, hisStart, hisCount⟩, ?_, rfl⟩
  have hbehind : s₁ = "," ++ (count ++ s₃) := Text.after?_eq_some.mp hcomma
  rw [hbehind, LineRange.text, List.append_assoc]
  rfl

theorem afterBlanks?_append (hgap : ∀ c ∈ gap, c.isBlank = true)
    (hmark : ∀ c ∈ (mark ++ rest).head?, c.isBlank = false) :
    afterBlanks? mark (gap ++ (mark ++ rest)) = some rest := by
  have hstop : (mark ++ rest).dropWhile CodePoint.isBlank = mark ++ rest := by
    cases hs : mark ++ rest with
    | nil => rfl
    | cons c s => exact List.dropWhile_cons_of_neg (by simp [hmark c (by rw [hs]; rfl)])
  rw [afterBlanks?, List.dropWhile_append_of_pos hgap, hstop]
  exact Text.after?_eq_some.mpr rfl

theorem exists_of_afterBlanks? (h : afterBlanks? mark s = some rest) :
    ∃ gap : Text, (∀ c ∈ gap, c.isBlank = true) ∧ s = gap ++ (mark ++ rest) := by
  refine ⟨s.takeWhile CodePoint.isBlank, fun c hc => List.mem_takeWhile_imp hc, ?_⟩
  rw [← Text.after?_eq_some.mp h, List.takeWhile_append_dropWhile]

/-- A number does not go on behind it if blanks and then a mark follow. -/
theorem isDigit_head?_gap (hgap : ∀ c ∈ gap, c.isBlank = true)
    (hrest : ∀ c ∈ rest.head?, c.isDigit = false) : ∀ c ∈ (gap ++ rest).head?, c.isDigit = false := by
  cases gap with
  | nil => exact hrest
  | cons x gap =>
    rintro c ⟨⟩
    exact isDigit_of_isBlank (hgap x List.mem_cons_self)

/-! ### A header at the start -/

theorem header?_append (header : Header) (rest : Text) :
    header? (header.text ++ rest) = some header.old.digits := by
  obtain ⟨hgapOld, hgapNew, hgapEnd⟩ := header.blank_gaps
  have hopen {s : Text} : Text.after? "@@" ("@@" ++ s) = some s := Text.after?_eq_some.mpr rfl
  have hminus {s : Text} : afterBlanks? "-" (header.gapOld ++ ("-" ++ s)) = some s :=
    afterBlanks?_append hgapOld (by rintro c ⟨⟩; decide)
  have hold {s : Text} : range? (header.old.text ++ (header.gapNew ++ ("+" ++ s))) =
      some (header.old.digits, header.gapNew ++ ("+" ++ s)) :=
    range?_append header.old (isDigit_head?_gap hgapNew (by rintro c ⟨⟩; decide))
  have hplus {s : Text} : afterBlanks? "+" (header.gapNew ++ ("+" ++ s)) = some s :=
    afterBlanks?_append hgapNew (by rintro c ⟨⟩; decide)
  have hnew {s : Text} : range? (header.new.text ++ (header.gapEnd ++ ("@@" ++ s))) =
      some (header.new.digits, header.gapEnd ++ ("@@" ++ s)) :=
    range?_append header.new (isDigit_head?_gap hgapEnd (by rintro c ⟨⟩; decide))
  have hend {s : Text} : afterBlanks? "@@" (header.gapEnd ++ ("@@" ++ s)) = some s :=
    afterBlanks?_append hgapEnd (by rintro c ⟨⟩; decide)
  have htext : header.text ++ rest = "@@" ++ (header.gapOld ++ ("-" ++ (header.old.text ++
      (header.gapNew ++ ("+" ++ (header.new.text ++ (header.gapEnd ++ ("@@" ++ rest)))))))) := by
    simp [Header.text, Header.middle, Text.ofString]
  simp only [htext, header?, Option.bind_eq_bind, hopen, hminus, hold, hplus, hnew, hend,
    Option.bind_some]
  rfl

theorem exists_of_header? (h : header? s = some ds) :
    ∃ header : Header, header.text <+: s ∧ ds = header.old.digits := by
  simp only [header?, Option.bind_eq_bind, Option.bind_eq_some_iff] at h
  obtain ⟨s₁, hopen, s₂, hminus, ⟨ds', s₃⟩, hold, s₄, hplus, ⟨dsNew, s₅⟩, hnew, s₆, hend, heq⟩ := h
  cases heq
  obtain ⟨gapOld, hgapOld, rfl⟩ := exists_of_afterBlanks? hminus
  obtain ⟨old, rfl, rfl⟩ := exists_of_range? hold
  obtain ⟨gapNew, hgapNew, hs₃⟩ := exists_of_afterBlanks? hplus
  obtain ⟨new, rfl, -⟩ := exists_of_range? hnew
  obtain ⟨gapEnd, hgapEnd, hs₅⟩ := exists_of_afterBlanks? hend
  have hblank : ∀ c ∈ gapOld ++ gapNew ++ gapEnd, c.isBlank = true :=
    List.forall_mem_append.mpr ⟨List.forall_mem_append.mpr ⟨hgapOld, hgapNew⟩, hgapEnd⟩
  refine ⟨⟨gapOld, old, gapNew, new, gapEnd, hblank⟩, ⟨s₆, ?_⟩, rfl⟩
  dsimp only at hs₃ hs₅
  rw [Text.after?_eq_some.mp hopen, hs₃, hs₅]
  simp [Header.text, Header.middle, Text.ofString]

theorem header?_eq_some_iff :
    header? s = some ds ↔ ∃ header : Header, header.text <+: s ∧ ds = header.old.digits := by
  refine ⟨exists_of_header?, ?_⟩
  rintro ⟨header, ⟨rest, rfl⟩, rfl⟩
  exact header?_append header rest

theorem header?_eq_none_iff : header? s = none ↔ ∀ header : Header, ¬ header.text <+: s := by
  rw [Option.eq_none_iff_forall_ne_some]
  constructor
  · intro hnone header hheader
    exact hnone _ (header?_eq_some_iff.mpr ⟨header, hheader, rfl⟩)
  · intro hnone ds hds
    obtain ⟨header, hheader, -⟩ := exists_of_header? hds
    exact hnone header hheader

/-- Every header begins with the first unit of its mark. -/
theorem header?_eq_none_of_head? (h : s.head? ≠ some (.scalar '@')) : header? s = none := by
  apply header?_eq_none_iff.mpr
  rintro header ⟨rest, rfl⟩
  exact h rfl

/-! ### The first header -/

/-- The digits of the first header, where the names of the sides are not looked for. -/
def bareHeader? : Text → Option (List Nat)
  | [] => none
  | c :: s => (header? (c :: s)).or (bareHeader? s)

/-- A text without the first unit of the mark is passed over. -/
theorem bareHeader?_append {part : Text} (hpart : .scalar '@' ∉ part) (s : Text) :
    bareHeader? (part ++ s) = bareHeader? s := by
  induction part with
  | nil => rfl
  | cons c part ih =>
    obtain ⟨hc, hpart⟩ := not_or.mp (mt List.mem_cons.mpr hpart)
    have hnone : header? (c :: (part ++ s)) = none :=
      header?_eq_none_of_head? fun hhead => hc (Option.some.inj hhead).symm
    rw [List.cons_append, bareHeader?, hnone, Option.none_or, ih hpart]

theorem bareHeader?_of_header? (h : header? s = some ds) : bareHeader? s = some ds := by
  cases s with
  | nil => cases h
  | cons c s => rw [bareHeader?, h, Option.some_or]

theorem IsFirst.bareHeader? {header : Header} (h : IsFirst before header diff) :
    bareHeader? diff = some header.old.digits := by
  induction before generalizing diff with
  | nil => exact bareHeader?_of_header? (header?_eq_some_iff.mpr ⟨header, h.stands, rfl⟩)
  | cons c before ih =>
    cases diff with
    | nil => exact absurd (List.prefix_nil.mp h.stands) (List.cons_ne_nil _ _)
    | cons c' diff =>
      obtain ⟨rfl, hstands⟩ := List.cons_prefix_cons.mp h.stands
      have hnone : header? (c :: diff) = none :=
        header?_eq_none_iff.mpr fun other hother =>
          absurd (h.first [] other hother) (Nat.not_succ_le_zero _)
      have hrest : IsFirst before header diff := by
        refine ⟨hstands, fun before' other hother => ?_⟩
        exact Nat.le_of_succ_le_succ
          (h.first (c :: before') other (List.cons_prefix_cons.mpr ⟨rfl, hother⟩))
      rw [LintReport.Output.bareHeader?, hnone, Option.none_or, ih hrest]

theorem isFirst_iff {header : Header} : IsFirst before header diff ↔
    before ++ header.text <+: diff ∧ ∀ n < before.length, header? (diff.drop n) = none := by
  refine ⟨fun h => ⟨h.stands, fun n hn => ?_⟩, fun ⟨hstands, hnone⟩ => ⟨hstands, ?_⟩⟩
  · apply header?_eq_none_iff.mpr
    rintro other ⟨rest, hother⟩
    have hbefore : diff.take n ++ other.text <+: diff :=
      ⟨rest, by rw [List.append_assoc, hother, List.take_append_drop]⟩
    have hfirst := h.first _ other hbefore
    rw [List.length_take] at hfirst
    omega
  · rintro before' other ⟨rest, rfl⟩
    by_contra hshort
    have hnone' := hnone before'.length (Nat.lt_of_not_le hshort)
    rw [List.append_assoc, List.drop_left, header?_eq_none_iff] at hnone'
    exact hnone' other (List.prefix_append _ _)

instance (before : Text) (header : Header) (diff : Text) : Decidable (IsFirst before header diff) :=
  decidable_of_iff _ isFirst_iff.symm

/-- If there are headers in a diff, one of them is the first. -/
theorem exists_isFirst {header : Header} (h : header.text <:+: diff) :
    ∃ before first, IsFirst before first diff := by
  classical
  have hstands : ∃ n before, ∃ first : Header, before ++ first.text <+: diff ∧ before.length = n := by
    obtain ⟨before, rest, hdiff⟩ := h
    exact ⟨_, before, header, ⟨rest, hdiff⟩, rfl⟩
  obtain ⟨before, first, hfirst, hlength⟩ := Nat.find_spec hstands
  refine ⟨before, first, hfirst, fun before' other hother => ?_⟩
  rw [hlength]
  exact Nat.find_min' hstands ⟨before', other, hother, rfl⟩

theorem bareHeader?_eq_none (h : ∀ header : Header, ¬ header.text <:+: diff) :
    bareHeader? diff = none := by
  induction diff with
  | nil => rfl
  | cons c diff ih =>
    have hnone : header? (c :: diff) = none :=
      header?_eq_none_iff.mpr fun header hheader => h header hheader.isInfix
    rw [bareHeader?, hnone, Option.none_or,
      ih fun header hheader => h header (List.infix_cons hheader)]

/-! ### The names of the sides -/

theorem exists_of_afterFolded? (hmark : .scalar '@' ∉ mark)
    (h : Text.afterFolded? mark s = some rest) :
    ∃ word : Text, s = word ++ rest ∧ .scalar '@' ∉ word := by
  induction mark generalizing s with
  | nil => exact ⟨[], Option.some.inj h, List.not_mem_nil⟩
  | cons m mark ih =>
    obtain ⟨hm, hmark⟩ := not_or.mp (mt List.mem_cons.mpr hmark)
    cases s with
    | nil => cases h
    | cons c s =>
      rw [Text.afterFolded?] at h
      split at h
      · next hfolded =>
        obtain ⟨word, rfl, hword⟩ := ih hmark h
        refine ⟨c :: word, rfl, fun hmem => ?_⟩
        rcases List.mem_cons.mp hmem with rfl | hmem
        · exact hm hfolded.symm
        · exact hword hmem
      · cases h

theorem exists_of_afterFolded?_gap (hmark : .scalar '@' ∉ mark)
    (h : Text.afterFolded? mark (s.dropWhile CodePoint.isBlank) = some rest) :
    ∃ part : Text, s = part ++ rest ∧ .scalar '@' ∉ part := by
  obtain ⟨word, hs, hword⟩ := exists_of_afterFolded? hmark h
  refine ⟨s.takeWhile CodePoint.isBlank ++ word, ?_, fun hmem => ?_⟩
  · rw [List.append_assoc, ← hs, List.takeWhile_append_dropWhile]
  · rcases List.mem_append.mp hmem with hmem | hmem
    · exact absurd (List.mem_takeWhile_imp hmem) (by decide)
    · exact hword hmem

theorem exists_of_preamble? (h : preamble? s = some rest) :
    ∃ names : Text, s = names ++ rest ∧ .scalar '@' ∉ names := by
  simp only [preamble?, Option.bind_eq_bind, Option.bind_eq_some_iff] at h
  obtain ⟨s₁, hdashes, s₂, hold, hnew⟩ := h
  obtain ⟨old, rfl, holdMark⟩ := exists_of_afterFolded?_gap (by decide) hold
  obtain ⟨new, rfl, hnewMark⟩ := exists_of_afterFolded?_gap (by decide) hnew
  refine ⟨"---" ++ (old ++ new), ?_, ?_⟩
  · rw [Text.after?_eq_some.mp hdashes]
    simp only [List.append_assoc]
  · simp only [List.mem_append, not_or]
    exact ⟨by decide, holdMark, hnewMark⟩

/-- The names of the sides hold no part of a header, so it makes no difference to look for them. -/
theorem firstHeader?_eq_bareHeader? (diff : Text) : firstHeader? diff = bareHeader? diff := by
  induction diff with
  | nil => rfl
  | cons c diff ih =>
    rw [firstHeader?, headerOrPreamble?, ih]
    cases hnames : (preamble? (c :: diff)).bind header? with
    | none => rw [Option.none_or, bareHeader?]
    | some ds =>
      obtain ⟨rest, hrest, hheader⟩ := Option.bind_eq_some_iff.mp hnames
      obtain ⟨names, hdiff, hnone⟩ := exists_of_preamble? hrest
      rw [hdiff, bareHeader?_append hnone, bareHeader?_of_header? hheader, Option.some_or,
        Option.some_or]

/-! ### What follows the first header -/

theorem LineRange.not_mem_text (range : LineRange) : .scalar '@' ∉ range.text := by
  have hdigit : ¬ (CodePoint.scalar '@').isDigit = true := by decide
  rw [text, List.mem_append, List.mem_cons, not_or, not_or]
  exact ⟨mt (range.isNumber_start.2 _) hdigit, by decide, mt (range.isNumber_count.2 _) hdigit⟩

theorem Header.not_mem_middle (h : Header) : .scalar '@' ∉ h.middle := by
  have hblank : ¬ (CodePoint.scalar '@').isBlank = true := by decide
  obtain ⟨hgapOld, hgapNew, hgapEnd⟩ := h.blank_gaps
  simp only [middle, List.mem_append, List.mem_cons, not_or]
  exact ⟨mt (hgapOld _) hblank, by decide, h.old.not_mem_text, mt (hgapNew _) hblank, by decide,
    h.new.not_mem_text, mt (hgapEnd _) hblank⟩

/-- The mark at the end of a header is the first one behind its start. -/
theorem Header.eq_of_prefix_middle (h : Header)
    (hstands : before ++ Text.ofString "@@" <+: h.middle ++ Text.ofString "@@") :
    before ++ Text.ofString "@@" = h.middle ++ Text.ofString "@@" := by
  have hlength := hstands.length_le
  by_cases hshort : before.length < h.middle.length
  · have hmark : before ++ [.scalar '@'] <+: h.middle := by
      refine List.prefix_of_prefix_length_le (List.IsPrefix.trans ?_ hstands)
        (List.prefix_append _ _) ?_
      · exact ⟨[.scalar '@'], by simp [Text.ofString]⟩
      · rw [List.length_append]
        exact hshort
    exact absurd (hmark.subset (by simp)) h.not_mem_middle
  · refine hstands.eq_of_length ?_
    simp only [List.length_append] at hlength ⊢
    omega

/-- A header that begins before the mark of another one ends with that mark at the latest. -/
theorem Header.prefix_of_prefix (h : Header) (hbefore : before ≠ [])
    (hstands : h.text <+: before ++ (Text.ofString "@@" ++ rest)) :
    h.text <+: before ++ Text.ofString "@@" := by
  have hmark : before ++ Text.ofString "@@" <+: before ++ (Text.ofString "@@" ++ rest) :=
    ⟨rest, List.append_assoc ..⟩
  by_cases hlength : h.text.length ≤ (before ++ Text.ofString "@@").length
  · exact List.prefix_of_prefix_length_le hstands hmark hlength
  have hlong : before ++ Text.ofString "@@" <+:
      .scalar '@' :: .scalar '@' :: (h.middle ++ Text.ofString "@@") :=
    List.prefix_of_prefix_length_le hmark hstands (Nat.le_of_not_le hlength)
  -- it would go on behind the mark, but two units of its own before its end are no mark
  rcases before with - | ⟨c, - | ⟨c', before⟩⟩
  · exact absurd rfl hbefore
  · have hhead := (List.cons_prefix_cons.mp hlong).2
    cases hmiddle : h.middle with
    | nil => simp [middle] at hmiddle
    | cons m middle =>
      rw [hmiddle] at hhead
      have hm : CodePoint.scalar '@' = m := by
        simpa [Text.ofString, List.cons_prefix_cons] using hhead
      have hmem := h.not_mem_middle
      rw [hmiddle, hm] at hmem
      exact absurd List.mem_cons_self hmem
  · obtain ⟨rfl, htail⟩ := List.cons_prefix_cons.mp hlong
    obtain ⟨rfl, hmiddle⟩ := List.cons_prefix_cons.mp htail
    have hend : .scalar '@' :: .scalar '@' :: before ++ Text.ofString "@@" = h.text :=
      congrArg (Text.ofString "@@" ++ ·) (h.eq_of_prefix_middle hmiddle)
    rw [hend]

/-- The first header is the first one whatever stands behind it. -/
theorem IsFirst.append {header : Header} (h : IsFirst before header diff) (rest : Text) :
    IsFirst before header (before ++ header.text ++ rest) := by
  refine ⟨List.prefix_append _ _, fun before' other hother => ?_⟩
  by_contra hshort
  rw [List.append_assoc] at hother
  obtain ⟨between, rfl⟩ : before' <+: before :=
    List.prefix_of_prefix_length_le ((List.prefix_append _ _).trans hother)
      (List.prefix_append _ _) (by omega)
  have hbetween : between ≠ [] := by
    rintro rfl
    simp at hshort
  rw [List.append_assoc, List.prefix_append_right_inj, Header.text, Header.text,
    List.append_assoc] at hother
  have hend := other.prefix_of_prefix hbetween hother
  refine hshort (h.first before' other (List.IsPrefix.trans ?_ h.stands))
  rw [List.append_assoc, List.prefix_append_right_inj]
  exact hend.trans ((List.prefix_append_right_inj _).mpr (List.prefix_append _ _))

/-! ### The estimated line -/

theorem IsFirst.estimatedLine {header : Header} (h : IsFirst before header diff)
    (hbound : header.old.start.length ≤ maxDigits) :
    estimatedLine diff = .ok (header.line + contextLines) := by
  have hdigits : header.old.digits.length ≤ maxDigits := by
    rwa [LineRange.digits, List.filterMap_length_eq_length.mpr header.old.isNumber_start.2]
  unfold LintReport.Output.estimatedLine
  rw [firstHeader?_eq_bareHeader?, h.bareHeader?]
  exact if_pos hdigits

theorem Header.infix_text (h : Header) : h.old.start <:+: h.text :=
  ⟨Text.ofString "@@" ++ (h.gapOld ++ [.scalar '-']), .scalar ',' :: (h.old.count ++ (h.gapNew ++
    (.scalar '+' :: (h.new.text ++ (h.gapEnd ++ Text.ofString "@@"))))), by
    simp [text, middle, LineRange.text, Text.ofString]⟩

/-- The line is the one of the first header and three lines of context, wherever that stands and
whatever stands around it; without a header it is the first line. -/
theorem estimatedLine_eq (diff : Text)
    (hruns : ∀ run : Text, run <:+: diff → (∀ c ∈ run, c.isDigit = true) → run.length ≤ maxDigits) :
    (∀ before header, IsFirst before header diff →
      estimatedLine diff = .ok (header.line + 3) ∧
        ∀ rest, estimatedLine (before ++ header.text ++ rest) = estimatedLine diff) ∧
      ((∀ header : Header, ¬ header.text <:+: diff) → estimatedLine diff = .ok 1) ∧
      ((∃ header : Header, header.text <:+: diff) → ∃ before header, IsFirst before header diff) ∧
      firstHeader? diff = bareHeader? diff := by
  refine ⟨fun before header h => ?_, fun hnone => ?_, fun ⟨_, hheader⟩ => exists_isFirst hheader,
    firstHeader?_eq_bareHeader? diff⟩
  · have hstart : header.old.start <:+: diff :=
      header.infix_text.trans ((List.suffix_append _ _).isInfix.trans h.stands.isInfix)
    have hbound := hruns _ hstart header.old.isNumber_start.2
    have hline := h.estimatedLine hbound
    exact ⟨hline, fun rest => ((h.append rest).estimatedLine hbound).trans hline.symm⟩
  · unfold estimatedLine
    rw [firstHeader?_eq_bareHeader?, bareHeader?_eq_none hnone]

/-- Behind the names of the sides and a header that breaks off, the header is still the first. -/
theorem estimatedLine_eq_behindPartial :
    estimatedLine "--- Original\n+++ New\n@@ -9,\n@@ -20,7\n+21,٧ @@\n" = .ok 23 :=
  ((estimatedLine_eq _ fun _ hrun _ => hrun.length_le.trans (by decide)).1
    "--- Original\n+++ New\n@@ -9,\n"
    ⟨" ", ⟨"20", "7", by decide, by decide⟩, "\n", ⟨"21", "٧", by decide, by decide⟩, " ", by decide⟩
    (by decide)).1

end LintReport.Output
