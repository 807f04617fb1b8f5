import LintReport.Proofs.Json.Token

/-!
Tokens that are kept. Words and numbers are made of printable ASCII characters other than the quote.
Where two texts differ in other units alone, one of them starts with the words and the numbers that
the other starts with.
-/
namespace LintReport.Json

open Text (value_of_isDigit)

/-- The units that words and numbers are made of, and more. -/
def IsBare (c : CodePoint) : Prop := 0x20 ≤ c.value ∧ c.value < 0x80 ∧ c ≠ .scalar '"'

instance (c : CodePoint) : Decidable (IsBare c) := inferInstanceAs (Decidable (_ ∧ _))

/-- A relation between texts in which a bare unit at the head of one is at the head of the other. -/
def KeepsBare (R : Text → Text → Prop) : Prop :=
  ∀ ⦃c : CodePoint⦄ ⦃p q : Text⦄, IsBare c → R p q →
    (∃ s t, p = c :: s ∧ q = c :: t ∧ R s t) ∨ (∀ s, p ≠ c :: s) ∧ ∀ t, q ≠ c :: t

theorem isBare_of_asciiDigit? {c : CodePoint} {d : Nat} (h : c.asciiDigit? = some d) :
    IsBare c := by
  have hvalue := value_of_asciiDigit? h
  refine ⟨by omega, by omega, ?_⟩
  rintro rfl
  exact absurd hvalue (by decide)

section Kept

variable {R : Text → Text → Prop} {p q r : Text}

/-! ### Words -/

theorem after?_kept (hR : KeepsBare R) {w : Text} (hw : ∀ c ∈ w, IsBare c) (h : R p q) :
    (∃ r r', Text.after? w p = some r ∧ Text.after? w q = some r' ∧ R r r') ∨
      Text.after? w p = none ∧ Text.after? w q = none := by
  induction w generalizing p q with
  | nil => exact Or.inl ⟨p, q, rfl, rfl, h⟩
  | cons m w ih =>
    have hnone {s : Text} (hs : ∀ t, s ≠ m :: t) : Text.after? (m :: w) s = none := by
      cases s with
      | nil => rfl
      | cons c s => rw [Text.after?, if_neg fun hm : m = c => hs s (hm ▸ rfl)]
    rcases hR (hw m List.mem_cons_self) h with ⟨s, t, rfl, rfl, hst⟩ | ⟨hp, hq⟩
    · simp only [Text.after?, if_true]
      exact ih (fun c hc => hw c (List.mem_cons_of_mem _ hc)) hst
    · exact Or.inr ⟨hnone hp, hnone hq⟩

theorem readWord?_kept (hR : KeepsBare R) (h : R p q) :
    (∃ v r r', readWord? p = some (v, r) ∧ readWord? q = some (v, r') ∧ R r r') ∨
      readWord? p = none ∧ readWord? q = none := by
  have hbare : ∀ w ∈ words, ∀ c ∈ w.1, IsBare c := by decide
  unfold readWord?
  generalize words = ws at hbare
  induction ws with
  | nil => exact Or.inr ⟨rfl, rfl⟩
  | cons w ws ih =>
    obtain ⟨word, value⟩ := w
    rcases after?_kept hR (hbare _ List.mem_cons_self) h with ⟨r, r', hp, hq, hr⟩ | ⟨hp, hq⟩
    · exact Or.inl ⟨value, r, r', by simp [hp], by simp [hq], hr⟩
    · have hrest := ih fun w hw => hbare w (List.mem_cons_of_mem _ hw)
      simpa only [List.findSome?_cons, hp, hq, Option.map_none] using hrest

/-! ### Numbers -/

/-- A part of a number is the same in related texts. -/
def SpansKept {α : Type} (R : Text → Text → Prop) (f : Text → α × Text) : Prop :=
  ∀ ⦃p q : Text⦄, R p q → (f q).1 = (f p).1 ∧ R (f p).2 (f q).2

theorem SpansKept.eq {α : Type} {f : Text → α × Text} (hf : SpansKept R f) {x : α}
    (h : R p q) (hp : f p = (x, r)) : ∃ r', f q = (x, r') ∧ R r r' := by
  obtain ⟨hx, hr⟩ := hf h
  rw [hp] at hx hr
  exact ⟨(f q).2, Prod.ext hx rfl, hr⟩

theorem spanDigits_kept (hR : KeepsBare R) : SpansKept R spanDigits := by
  have hplain {s : Text} (hs : ∀ c t, s = c :: t → c.asciiDigit? = none) :
      spanDigits s = ([], s) := by
    cases s with
    | nil => rfl
    | cons c s => simp only [spanDigits, Text.spanDigits, hs c s rfl]
  have hnone {p q : Text} (h : R p q) (hp : ∀ c s, p = c :: s → c.asciiDigit? = none) :
      ∀ c t, q = c :: t → c.asciiDigit? = none := by
    rintro c t rfl
    cases hd : c.asciiDigit? with
    | none => rfl
    | some d =>
      rcases hR (isBare_of_asciiDigit? hd) h with ⟨s, _, rfl, -⟩ | ⟨-, hq⟩
      · rw [hp c s rfl] at hd
        cases hd
      · exact absurd rfl (hq t)
  have hsame {p q : Text} (h : R p q) (hp : ∀ c s, p = c :: s → c.asciiDigit? = none) :
      (spanDigits q).1 = (spanDigits p).1 ∧ R (spanDigits p).2 (spanDigits q).2 := by
    rw [hplain hp, hplain (hnone h hp)]
    exact ⟨rfl, h⟩
  intro p
  induction p with
  | nil => exact fun q h => hsame h fun c s hs => by cases hs
  | cons c s ih =>
    intro q h
    cases hd : c.asciiDigit? with
    | none => exact hsame h fun _ _ heq => by cases heq; exact hd
    | some d =>
      rcases hR (isBare_of_asciiDigit? hd) h with ⟨_, t, heq, rfl, hst⟩ | ⟨hp, -⟩
      · cases heq
        obtain ⟨hdigits, hrest⟩ := ih hst
        simp only [spanDigits, Text.spanDigits, hd]
        exact ⟨congrArg (d :: ·) hdigits, hrest⟩
      · exact absurd rfl (hp s)

theorem spanMinus_kept (hR : KeepsBare R) : SpansKept R spanMinus := by
  have hplain {s : Text} (hs : ∀ t, s ≠ .scalar '-' :: t) : spanMinus s = (false, s) := by
    rw [spanMinus]
    exact hs
  intro p q h
  rcases hR (c := .scalar '-') (by decide) h with ⟨s, t, rfl, rfl, hst⟩ | ⟨hp, hq⟩
  · exact ⟨rfl, hst⟩
  · rw [hplain hp, hplain hq]
    exact ⟨rfl, h⟩

theorem spanWhole_kept (hR : KeepsBare R) : SpansKept R spanWhole := by
  have hplain {s : Text} (hs : ∀ t, s ≠ .scalar '0' :: t) : spanWhole s = spanDigits s := by
    rw [spanWhole]
    exact hs
  intro p q h
  rcases hR (c := .scalar '0') (by decide) h with ⟨s, t, rfl, rfl, hst⟩ | ⟨hp, hq⟩
  · exact ⟨rfl, hst⟩
  · rw [hplain hp, hplain hq]
    exact spanDigits_kept hR h

theorem splitSign_kept (hR : KeepsBare R) : SpansKept R Text.splitSign := by
  have hplain {s : Text} (hminus : ∀ t, s ≠ .scalar '-' :: t) (hplus : ∀ t, s ≠ .scalar '+' :: t) :
      Text.splitSign s = (false, s) := by
    rw [Text.splitSign]
    · exact hminus
    · exact hplus
  intro p q h
  rcases hR (c := .scalar '-') (by decide) h with ⟨s, t, rfl, rfl, hst⟩ | ⟨hp, hq⟩
  · exact ⟨rfl, hst⟩
  · rcases hR (c := .scalar '+') (by decide) h with ⟨s, t, rfl, rfl, hst⟩ | ⟨hp', hq'⟩
    · exact ⟨rfl, hst⟩
    · rw [hplain hp hp', hplain hq hq']
      exact ⟨rfl, h⟩

theorem spanFraction_kept (hR : KeepsBare R) : SpansKept R spanFraction := by
  have hplain {s : Text} (hs : ∀ t, s ≠ .scalar '.' :: t) : spanFraction s = ([], s) := by
    rw [spanFraction]
    exact hs
  intro p q h
  rcases hR (c := .scalar '.') (by decide) h with ⟨s, t, rfl, rfl, hst⟩ | ⟨hp, hq⟩
  · obtain ⟨hdigits, hrest⟩ := spanDigits_kept hR hst
    rcases hs : spanDigits s with ⟨ds, r⟩
    rcases ht : spanDigits t with ⟨ds', r'⟩
    rw [hs, ht] at hdigits hrest
    cases hdigits
    cases ds with
    | nil =>
      simp only [spanFraction, hs, ht]
      exact ⟨trivial, h⟩
    | cons d ds =>
      simp only [spanFraction, hs, ht]
      exact ⟨trivial, hrest⟩
  · rw [hplain hp, hplain hq]
    exact ⟨rfl, h⟩

theorem spanExponent_kept (hR : KeepsBare R) : SpansKept R spanExponent := by
  have hplain {s : Text} (hlower : ∀ t, s ≠ .scalar 'e' :: t) (hupper : ∀ t, s ≠ .scalar 'E' :: t) :
      spanExponent s = (none, s) := by
    cases s with
    | nil => rfl
    | cons c s =>
      have hc : ¬ (c = .scalar 'e' ∨ c = .scalar 'E') := by
        rintro (rfl | rfl)
        · exact hlower s rfl
        · exact hupper s rfl
      rw [spanExponent, if_neg hc]
  have hletter {c : CodePoint} {s t : Text} (hc : c = .scalar 'e' ∨ c = .scalar 'E')
      (hcs : R (c :: s) (c :: t)) (hst : R s t) :
      (spanExponent (c :: t)).1 = (spanExponent (c :: s)).1 ∧
        R (spanExponent (c :: s)).2 (spanExponent (c :: t)).2 := by
    obtain ⟨hsign, hbody⟩ := splitSign_kept hR hst
    obtain ⟨hdigits, hrest⟩ := spanDigits_kept hR hbody
    simp only [spanExponent, if_pos hc, hsign]
    rcases hs : spanDigits (Text.splitSign s).2 with ⟨ds, r⟩
    rcases ht : spanDigits (Text.splitSign t).2 with ⟨ds', r'⟩
    rw [hs, ht] at hdigits hrest
    cases hdigits
    cases ds with
    | nil => exact ⟨rfl, hcs⟩
    | cons d ds => exact ⟨rfl, hrest⟩
  intro p q h
  rcases hR (c := .scalar 'e') (by decide) h with ⟨s, t, rfl, rfl, hst⟩ | ⟨hp, hq⟩
  · exact hletter (Or.inl rfl) h hst
  · rcases hR (c := .scalar 'E') (by decide) h with ⟨s, t, rfl, rfl, hst⟩ | ⟨hp', hq'⟩
    · exact hletter (Or.inr rfl) h hst
    · rw [hplain hp hp', hplain hq hq']
      exact ⟨rfl, h⟩

theorem readNumber_kept {v : Json} (hR : KeepsBare R) (h : R p q)
    (hp : readNumber p = .ok (v, r)) : ∃ r', readNumber q = .ok (v, r') ∧ R r r' := by
  obtain ⟨negative, body, whole, afterWhole, fraction, afterFraction, exponent, hm, hw, hf, he,
    hwhole, hv⟩ := readNumber_eq_ok hp
  obtain ⟨_, hm', hbody⟩ := (spanMinus_kept hR).eq h hm
  obtain ⟨_, hw', hafterWhole⟩ := (spanWhole_kept hR).eq hbody hw
  obtain ⟨_, hf', hafterFraction⟩ := (spanFraction_kept hR).eq hafterWhole hf
  obtain ⟨r', he', hrest⟩ := (spanExponent_kept hR).eq hafterFraction he
  refine ⟨r', ?_, hrest⟩
  rw [readNumber_eq hm' hw' hf' he', if_neg hwhole, hv]
  rfl

end Kept

end LintReport.Json
