import LintReport.Json.Reader
import LintReport.Proofs.Number.Whole

/-!
The tokens of a JSON text: what a string literal consists of, and that words and numbers are made of
printable ASCII characters alone. Whatever is read stands at the start of the text, and the rest
follows it.
-/
namespace LintReport.Json

open Text (value_of_isDigit)

theorem map_eq_ok {ε α β : Type} {x : Except ε α} {f : α → β} {y : β} (h : x.map f = .ok y) :
    ∃ a, x = .ok a ∧ f a = y := by
  cases x with
  | error e => cases h
  | ok a => exact ⟨a, rfl, Except.ok.inj h⟩

/-! ### Strings -/

/-- The pieces of a string literal behind its opening quote, and what follows the closing one. -/
inductive Pieces : Text → List Piece → Text → Prop
  | closing {r} : Pieces (.scalar '"' :: r) [] r
  | numbered {a b c d n s ps r} (hn : hex4? a b c d = some n) (hs : Pieces s ps r) :
      Pieces (.scalar '\\' :: .scalar 'u' :: a :: b :: c :: d :: s) (.numbered n :: ps) r
  | escaped {e c s ps r} (he : shortEscape? e = some c) (hs : Pieces s ps r) :
      Pieces (.scalar '\\' :: e :: s) (.plain c :: ps) r
  | plain {c s ps r} (hquote : c ≠ .scalar '"') (hslash : c ≠ .scalar '\\')
      (hc : 0x20 ≤ c.value) (hs : Pieces s ps r) : Pieces (c :: s) (.plain c :: ps) r

theorem Pieces.ne_nil {s r : Text} {ps : List Piece} (h : Pieces s ps r) : s ≠ [] := by
  cases h <;> exact List.cons_ne_nil _ _

theorem pieces_of_ok {s r : Text} {ps : List Piece} (h : readPieces s = .ok (ps, r)) :
    Pieces s ps r := by
  fun_induction readPieces s generalizing ps r with
  | case2 s =>
    cases h
    exact .closing
  | case3 a b c d n next s hn ih =>
    obtain ⟨⟨pieces, rest⟩, hpieces, heq⟩ := map_eq_ok h
    cases heq
    exact .numbered hn (ih hpieces)
  | case7 e s hplain c he ih =>
    obtain ⟨⟨pieces, rest⟩, hpieces, heq⟩ := map_eq_ok h
    cases heq
    exact .escaped he (ih hpieces)
  | case10 c s hquote hnumbered hescape hslash hc ih =>
    obtain ⟨⟨pieces, rest⟩, hpieces, heq⟩ := map_eq_ok h
    cases heq
    have hne : c ≠ .scalar '\\' := by
      intro hc
      cases s with
      | nil => exact hslash hc rfl
      | cons e s => exact hescape e s hc rfl
    exact .plain hquote hne (Nat.le_of_not_lt hc) (ih hpieces)
  | _ => cases h

theorem Pieces.readPieces_eq {s r : Text} {ps : List Piece} (h : Pieces s ps r) :
    readPieces s = .ok (ps, r) := by
  induction h with
  | closing => rw [readPieces]
  | @numbered a b c d n s ps r hn hs ih =>
    obtain ⟨next, s, rfl⟩ := List.exists_cons_of_ne_nil hs.ne_nil
    rw [readPieces.eq_3 a b c d n next s hn, ih]
    rfl
  | @escaped e c s ps r he hs ih =>
    have hu : e ≠ .scalar 'u' := by
      rintro rfl
      cases he
    rw [readPieces.eq_5 e s fun _ _ _ _ _ h _ => hu h, he, ih]
    rfl
  | @plain c s ps r hquote hslash hc hs ih =>
    rw [readPieces.eq_7 c s hquote (fun _ _ _ _ _ h _ => hslash h) (fun _ _ h _ => hslash h)
      (fun h _ => hslash h), if_neg (Nat.not_lt.mpr hc), ih]
    rfl

theorem readString_eq_ok {s t r : Text} :
    readString s = .ok (t, r) ↔ ∃ ps, Pieces s ps r ∧ t = textOfPieces ps := by
  constructor
  · intro h
    unfold readString at h
    split at h
    · next ps rest hpieces =>
      cases h
      exact ⟨ps, pieces_of_ok hpieces, rfl⟩
    · cases h
    · cases h
  · rintro ⟨ps, hpieces, rfl⟩
    rw [readString, hpieces.readPieces_eq]

/-- A literal ends with its closing quote. -/
theorem Pieces.split {s r : Text} {ps : List Piece} (h : Pieces s ps r) :
    ∃ y, s = y ++ .scalar '"' :: r := by
  induction h with
  | closing => exact ⟨[], rfl⟩
  | numbered hn hs ih =>
    obtain ⟨y, rfl⟩ := ih
    exact ⟨_ :: _ :: _ :: _ :: _ :: _ :: y, rfl⟩
  | escaped he hs ih =>
    obtain ⟨y, rfl⟩ := ih
    exact ⟨_ :: _ :: y, rfl⟩
  | plain hquote hslash hc hs ih =>
    obtain ⟨y, rfl⟩ := ih
    exact ⟨_ :: y, rfl⟩

/-! ### Words and numbers -/

/-- A text of printable ASCII characters. -/
def IsGraphic (s : Text) : Prop := ∀ c ∈ s, 0x20 ≤ c.value ∧ c.value < 0x80

theorem isGraphic_nil : IsGraphic [] := fun _ hc => absurd hc List.not_mem_nil

theorem IsGraphic.append {s t : Text} (hs : IsGraphic s) (ht : IsGraphic t) : IsGraphic (s ++ t) := by
  intro c hc
  rcases List.mem_append.mp hc with hc | hc
  · exact hs c hc
  · exact ht c hc

theorem isGraphic_singleton {c : CodePoint} (hc : 0x20 ≤ c.value ∧ c.value < 0x80) : IsGraphic [c] := by
  intro x hx
  rw [List.mem_singleton.mp hx]
  exact hc

theorem readWord?_split {s r : Text} {v : Json} (h : readWord? s = some (v, r)) :
    ∃ y, y ≠ [] ∧ IsGraphic y ∧ s = y ++ r := by
  obtain ⟨⟨word, value⟩, hmem, hword⟩ := List.exists_of_findSome?_eq_some h
  obtain ⟨rest, hrest, heq⟩ := Option.map_eq_some_iff.mp hword
  cases heq
  refine ⟨word, ?_, ?_, Text.after?_eq_some.mp hrest⟩
  · rintro rfl
    exact absurd hmem (by simp [words, Text.ofString])
  · have hgraphic : ∀ w ∈ words, ∀ c ∈ w.1, 0x20 ≤ c.value ∧ c.value < 0x80 := by decide
    exact hgraphic _ hmem

theorem value_of_asciiDigit? {c : CodePoint} {n : Nat} (h : c.asciiDigit? = some n) :
    0x30 ≤ c.value ∧ c.value ≤ 0x39 := by
  cases c with
  | scalar c =>
    simp only [CodePoint.asciiDigit?, Option.ite_none_right_eq_some] at h
    exact value_of_isDigit h.1
  | surrogate half => cases h

theorem spanDigits_split (s : Text) :
    ∃ y, IsGraphic y ∧ s = y ++ (spanDigits s).2 ∧ y.length = (spanDigits s).1.length := by
  obtain ⟨digits, hs, hdigits, -, hlength⟩ := Text.spanDigits_eq CodePoint.asciiDigit? s
  refine ⟨digits, fun c hc => ?_, hs, hlength⟩
  obtain ⟨d, hd⟩ := Option.isSome_iff_exists.mp (hdigits c hc)
  have := value_of_asciiDigit? hd
  omega

theorem spanWhole_split (s : Text) :
    ∃ y, IsGraphic y ∧ s = y ++ (spanWhole s).2 ∧ y.length = (spanWhole s).1.length := by
  unfold spanWhole
  split
  · exact ⟨[.scalar '0'], isGraphic_singleton (by decide), rfl, rfl⟩
  · exact spanDigits_split s

theorem spanFraction_split (s : Text) : ∃ y, IsGraphic y ∧ s = y ++ (spanFraction s).2 := by
  unfold spanFraction
  split
  · next s =>
    obtain ⟨y, hy, hs, -⟩ := spanDigits_split s
    split
    · exact ⟨[], isGraphic_nil, rfl⟩
    · next hne =>
      refine ⟨.scalar '.' :: y, (isGraphic_singleton (by decide)).append hy, ?_⟩
      exact congrArg (_ :: ·) hs
  · exact ⟨[], isGraphic_nil, rfl⟩

theorem splitSign_split (s : Text) : ∃ y, IsGraphic y ∧ s = y ++ (Text.splitSign s).2 := by
  unfold Text.splitSign
  split
  · exact ⟨[.scalar '-'], isGraphic_singleton (by decide), rfl⟩
  · exact ⟨[.scalar '+'], isGraphic_singleton (by decide), rfl⟩
  · exact ⟨[], isGraphic_nil, rfl⟩

theorem spanExponent_split (s : Text) : ∃ y, IsGraphic y ∧ s = y ++ (spanExponent s).2 := by
  cases s with
  | nil => exact ⟨[], isGraphic_nil, rfl⟩
  | cons c s =>
    by_cases hc : c = .scalar 'e' ∨ c = .scalar 'E'
    · obtain ⟨y, hy, hs⟩ := splitSign_split s
      obtain ⟨z, hz, hbody, -⟩ := spanDigits_split (Text.splitSign s).2
      simp only [spanExponent, if_pos hc]
      split
      · exact ⟨[], isGraphic_nil, rfl⟩
      · next ds rest hne hspan =>
        rw [hspan] at hbody
        refine ⟨c :: (y ++ z), (isGraphic_singleton ?_).append (hy.append hz), ?_⟩
        · rcases hc with rfl | rfl <;> decide
        · rw [List.cons_append, List.append_assoc, ← hbody, ← hs]
    · exact ⟨[], isGraphic_nil, by simp [spanExponent, hc]⟩

/-- A minus sign at the start of a text, and what follows it. -/
def spanMinus : Text → Bool × Text
  | .scalar '-' :: s => (true, s)
  | s => (false, s)

theorem spanMinus_split (s : Text) : ∃ y, IsGraphic y ∧ s = y ++ (spanMinus s).2 := by
  unfold spanMinus
  split
  · exact ⟨[.scalar '-'], isGraphic_singleton (by decide), rfl⟩
  · exact ⟨[], isGraphic_nil, rfl⟩

/-- The value of a number with the given parts. -/
def numeral (negative : Bool) (whole fraction : List Nat) (exponent : Option Int) :
    Except ReadError Json :=
  if fraction = [] ∧ exponent = none then
    if whole.length ≤ maxDigits then
      .ok (.int (if negative then -(ofDigits whole : Int) else ofDigits whole))
    else
      .error (.oversizedNumber whole.length)
  else
    .ok (.float (.ofDecimal negative (ofDigits (whole ++ fraction))
      (exponent.getD 0 - fraction.length)))

/-- A number from its parts: a sign, a whole part, a fraction and an exponent. -/
theorem readNumber_eq {s body afterWhole afterFraction rest : Text} {negative : Bool}
    {whole fraction : List Nat} {exponent : Option Int} (hm : spanMinus s = (negative, body))
    (hw : spanWhole body = (whole, afterWhole))
    (hf : spanFraction afterWhole = (fraction, afterFraction))
    (he : spanExponent afterFraction = (exponent, rest)) :
    readNumber s = if whole = [] then mistakeAt .noValue s else
      (numeral negative whole fraction exponent).map (·, rest) := by
  have hread : readNumber s =
      let minus := spanMinus s
      let whole := spanWhole minus.2
      let fraction := spanFraction whole.2
      let exponent := spanExponent fraction.2
      if whole.1 = [] then mistakeAt .noValue s
      else if fraction.1 = [] ∧ exponent.1 = none then
        if whole.1.length ≤ maxDigits then
          .ok (.int (if minus.1 then -(ofDigits whole.1 : Int) else ofDigits whole.1), exponent.2)
        else
          .error (.oversizedNumber whole.1.length)
      else
        .ok (.float (.ofDecimal minus.1 (ofDigits (whole.1 ++ fraction.1))
          (exponent.1.getD 0 - fraction.1.length)), exponent.2) := rfl
  simp only [hread, numeral, hm, hw, hf, he]
  split
  · rfl
  · split
    · split <;> rfl
    · rfl

/-- The parts of a number that was read. -/
theorem readNumber_eq_ok {s r : Text} {v : Json} (h : readNumber s = .ok (v, r)) :
    ∃ negative body whole afterWhole fraction afterFraction exponent,
      spanMinus s = (negative, body) ∧ spanWhole body = (whole, afterWhole) ∧
      spanFraction afterWhole = (fraction, afterFraction) ∧
      spanExponent afterFraction = (exponent, r) ∧ whole ≠ [] ∧
      numeral negative whole fraction exponent = .ok v := by
  rcases hm : spanMinus s with ⟨negative, body⟩
  rcases hw : spanWhole body with ⟨whole, afterWhole⟩
  rcases hf : spanFraction afterWhole with ⟨fraction, afterFraction⟩
  rcases he : spanExponent afterFraction with ⟨exponent, rest⟩
  rw [readNumber_eq hm hw hf he] at h
  split at h
  · cases h
  · next hwhole =>
    obtain ⟨v', hv, heq⟩ := map_eq_ok h
    cases heq
    exact ⟨negative, body, whole, afterWhole, fraction, afterFraction, exponent, rfl, hw, hf, he,
      hwhole, hv⟩

theorem numeral_kind {negative : Bool} {whole fraction : List Nat} {exponent : Option Int}
    {v : Json} (h : numeral negative whole fraction exponent = .ok v) :
    (∃ n, v = .int n) ∨ ∃ x, v = .float x := by
  unfold numeral at h
  split at h
  · split at h
    · exact Or.inl ⟨_, (Except.ok.inj h).symm⟩
    · cases h
  · exact Or.inr ⟨_, (Except.ok.inj h).symm⟩

theorem readNumber_split {s r : Text} {v : Json} (h : readNumber s = .ok (v, r)) :
    ∃ y, y ≠ [] ∧ IsGraphic y ∧ s = y ++ r := by
  obtain ⟨negative, body, whole, afterWhole, fraction, afterFraction, exponent, hm, hw, hf, he,
    hwhole, -⟩ := readNumber_eq_ok h
  obtain ⟨y₁, hy₁, hs₁⟩ := spanMinus_split s
  obtain ⟨y₂, hy₂, hs₂, hlength⟩ := spanWhole_split body
  obtain ⟨y₃, hy₃, hs₃⟩ := spanFraction_split afterWhole
  obtain ⟨y₄, hy₄, hs₄⟩ := spanExponent_split afterFraction
  rw [hm] at hs₁
  rw [hw] at hs₂ hlength
  rw [hf] at hs₃
  rw [he] at hs₄
  refine ⟨y₁ ++ (y₂ ++ (y₃ ++ y₄)), ?_, hy₁.append (hy₂.append (hy₃.append hy₄)), ?_⟩
  · intro hnil
    have hy₂nil : y₂ = [] := (List.append_eq_nil_iff.mp (List.append_eq_nil_iff.mp hnil).2).1
    rw [hy₂nil] at hlength
    exact hwhole (List.eq_nil_of_length_eq_zero hlength.symm)
  · simp only [List.append_assoc, ← hs₄, ← hs₃, ← hs₂, ← hs₁]

end LintReport.Json
