import LintReport.Proofs.Json.Kept

/-!
Tokens in settled texts. Three units that end a line may stand in a string literal, and there a line
feed may not. Apart from them, a token is in a settled text what it was in the text itself.
-/
namespace LintReport.Json

open Text (Settles not_endsLine settles_cons_iff value_of_isDigit)

/-- The units that end a line and yet may stand in a string literal. -/
def hiddenEndings : List CodePoint := [.scalar '\u0085', .scalar '\u2028', .scalar '\u2029']

theorem scalar_of_value_eq {c : CodePoint} {d : Char} (h : c.value = d.toNat) : c = .scalar d := by
  cases c with
  | scalar c => exact congrArg _ (Char.toNat_inj.mp h)
  | surrogate half =>
    have hd := d.valid
    have hhalf := half.isLt
    simp only [CodePoint.value] at h
    change _ = d.val.toNat at h
    rcases hd with hd | hd
    · change d.val.toNat < 0xD800 at hd
      omega
    · obtain ⟨hd, -⟩ := hd
      change 0xDFFF < d.val.toNat at hd
      omega

theorem mem_hiddenEndings {c : CodePoint} :
    c ∈ hiddenEndings ↔ c.endsLine = true ∧ 0x20 ≤ c.value := by
  constructor
  · intro h
    simp only [hiddenEndings, List.mem_cons, List.not_mem_nil, or_false] at h
    rcases h with rfl | rfl | rfl <;> decide
  · rintro ⟨h, hc⟩
    simp only [CodePoint.endsLine, CodePoint.inRanges, List.any_cons, List.any_nil, Bool.or_false,
      Bool.or_eq_true, Bool.and_eq_true, decide_eq_true_eq] at h
    have hvalue : c.value = 0x85 ∨ c.value = 0x2028 ∨ c.value = 0x2029 := by omega
    simp only [hiddenEndings, List.mem_cons, List.not_mem_nil, or_false]
    exact hvalue.imp scalar_of_value_eq (Or.imp scalar_of_value_eq scalar_of_value_eq)

/-- A text without hidden endings. -/
def Clear (s : Text) : Prop := ∀ c ∈ s, c ∉ hiddenEndings

theorem Clear.append {s t : Text} (hs : Clear s) (ht : Clear t) : Clear (s ++ t) := by
  intro c hc
  rcases List.mem_append.mp hc with hc | hc
  · exact hs c hc
  · exact ht c hc

theorem Clear.cons {c : CodePoint} {s : Text} (hc : c ∉ hiddenEndings) (hs : Clear s) :
    Clear (c :: s) := by
  intro x hx
  rcases List.mem_cons.mp hx with rfl | hx
  · exact hc
  · exact hs x hx

theorem Clear.of_suffix {s t : Text} (h : Clear s) (hsuffix : t <:+ s) : Clear t :=
  fun x hx => h x (hsuffix.subset hx)

theorem Clear.of_cons {c : CodePoint} {s : Text} (h : Clear (c :: s)) : Clear s :=
  h.of_suffix (List.suffix_cons c s)

theorem IsGraphic.clear {s : Text} (h : IsGraphic s) : Clear s := by
  intro c hc hmem
  have hlt := (h c hc).2
  simp only [hiddenEndings, List.mem_cons, List.not_mem_nil, or_false] at hmem
  rcases hmem with rfl | rfl | rfl <;> exact absurd hlt (by decide)

/-! ### Heads -/

/-- A unit that ends no line stands at the head of a settled text where it stood before, and
nowhere else. -/
theorem settles_head {c : CodePoint} {p q : Text} (hc : c.endsLine = false) (h : Settles p q) :
    (∃ s t, p = c :: s ∧ q = c :: t ∧ Settles s t) ∨ (∀ s, p ≠ c :: s) ∧ ∀ t, q ≠ c :: t := by
  have hends {d : CodePoint} (hd : d.endsLine = true) : d ≠ c := by
    rintro rfl
    rw [hd] at hc
    cases hc
  cases h with
  | done hall =>
    refine Or.inr ⟨?_, fun t ht => by cases ht⟩
    rintro s rfl
    exact hends (hall c List.mem_cons_self) rfl
  | @keep d s t hd h =>
    by_cases hcd : d = c
    · subst hcd
      exact Or.inl ⟨s, t, rfl, rfl, h⟩
    · exact Or.inr ⟨fun s hs => hcd (List.cons.inj hs).1, fun t ht => hcd (List.cons.inj ht).1⟩
  | feed hd h =>
    exact Or.inr ⟨fun s hs => hends hd (List.cons.inj hs).1,
      fun t ht => hends Text.endsLine_feed (List.cons.inj ht).1⟩
  | pair h =>
    exact Or.inr ⟨fun s hs => hends Text.endsLine_return (List.cons.inj hs).1,
      fun t ht => hends Text.endsLine_feed (List.cons.inj ht).1⟩

/-! ### Words and numbers -/

theorem keepsBare_settles : KeepsBare Settles :=
  fun _ _ _ hc h => settles_head (not_endsLine hc.1 hc.2.1) h

theorem readWord?_settles {p q : Text} (h : Settles p q) :
    (∃ v r r', readWord? p = some (v, r) ∧ readWord? q = some (v, r') ∧ Settles r r') ∨
      readWord? p = none ∧ readWord? q = none :=
  readWord?_kept keepsBare_settles h

theorem readNumber_settles {p q r : Text} {v : Json} (h : Settles p q)
    (hp : readNumber p = .ok (v, r)) : ∃ r', readNumber q = .ok (v, r') ∧ Settles r r' :=
  readNumber_kept keepsBare_settles h hp

/-! ### Strings -/

theorem not_endsLine_of_hexDigit? {c : CodePoint} {n : Nat} (h : hexDigit? c = some n) :
    c.endsLine = false := by
  cases c with
  | scalar c =>
    have hrange {a b : Char} (ha : 'A' ≤ a) (hb : b ≤ 'f') (hc : a ≤ c ∧ c ≤ b) :
        (CodePoint.scalar c).endsLine = false := by
      have h₁ : 65 ≤ c.toNat := UInt32.le_iff_toNat_le.mp (Char.le_trans ha hc.1)
      have h₂ : c.toNat ≤ 102 := UInt32.le_iff_toNat_le.mp (Char.le_trans hc.2 hb)
      exact not_endsLine (show 0x20 ≤ c.toNat by omega) (show c.toNat < 0x80 by omega)
    simp only [hexDigit?] at h
    split at h
    · next hdigit =>
      have := value_of_isDigit hdigit
      exact not_endsLine (by omega) (by omega)
    · split at h
      · next hlower => exact hrange (by decide) (by decide) hlower
      · split at h
        · next hupper => exact hrange (by decide) (by decide) hupper
        · cases h
  | surrogate half => cases h

theorem not_endsLine_of_hex4? {a b c d : CodePoint} {n : Nat} (h : hex4? a b c d = some n) :
    a.endsLine = false ∧ b.endsLine = false ∧ c.endsLine = false ∧ d.endsLine = false := by
  simp only [hex4?, bind, Option.bind_eq_some_iff] at h
  obtain ⟨x, hx, y, hy, z, hz, w, hw, -⟩ := h
  exact ⟨not_endsLine_of_hexDigit? hx, not_endsLine_of_hexDigit? hy, not_endsLine_of_hexDigit? hz,
    not_endsLine_of_hexDigit? hw⟩

theorem not_endsLine_of_shortEscape? {e c : CodePoint} (h : shortEscape? e = some c) :
    e.endsLine = false := by
  unfold shortEscape? at h
  split at h <;> first | decide | cases h

theorem settles_numbered {a b c d : CodePoint} {n : Nat} {s q : Text}
    (hn : hex4? a b c d = some n)
    (h : Settles (.scalar '\\' :: .scalar 'u' :: a :: b :: c :: d :: s) q) :
    ∃ t, q = .scalar '\\' :: .scalar 'u' :: a :: b :: c :: d :: t ∧ Settles s t := by
  obtain ⟨ha, hb, hc, hd⟩ := not_endsLine_of_hex4? hn
  obtain ⟨_, rfl, hu⟩ := (settles_cons_iff (by decide)).mp h
  obtain ⟨_, rfl, hdigits⟩ := (settles_cons_iff (by decide)).mp hu
  obtain ⟨_, rfl, h₁⟩ := (settles_cons_iff ha).mp hdigits
  obtain ⟨_, rfl, h₂⟩ := (settles_cons_iff hb).mp h₁
  obtain ⟨_, rfl, h₃⟩ := (settles_cons_iff hc).mp h₂
  obtain ⟨t, rfl, hst⟩ := (settles_cons_iff hd).mp h₃
  exact ⟨t, rfl, hst⟩

theorem settles_escaped {e c : CodePoint} {s q : Text} (he : shortEscape? e = some c)
    (h : Settles (.scalar '\\' :: e :: s) q) :
    ∃ t, q = .scalar '\\' :: e :: t ∧ Settles s t := by
  obtain ⟨_, rfl, hescape⟩ := (settles_cons_iff (by decide)).mp h
  obtain ⟨t, rfl, hst⟩ := (settles_cons_iff (not_endsLine_of_shortEscape? he)).mp hescape
  exact ⟨t, rfl, hst⟩

/-- Without hidden endings in it, a literal is in a settled text what it was. -/
theorem Pieces.settles {p q r : Text} {ps : List Piece} (hp : Pieces p ps r) (h : Settles p q)
    (hclear : Clear p) : ∃ r', Pieces q ps r' ∧ Settles r r' := by
  induction hp generalizing q with
  | closing =>
    obtain ⟨t, rfl, hst⟩ := (settles_cons_iff (by decide)).mp h
    exact ⟨t, .closing, hst⟩
  | numbered hn hs ih =>
    obtain ⟨t, rfl, hst⟩ := settles_numbered hn h
    obtain ⟨r', hr', hrest⟩ := ih hst fun x hx => hclear x (by simp [hx])
    exact ⟨r', .numbered hn hr', hrest⟩
  | escaped he hs ih =>
    obtain ⟨t, rfl, hst⟩ := settles_escaped he h
    obtain ⟨r', hr', hrest⟩ := ih hst fun x hx => hclear x (by simp [hx])
    exact ⟨r', .escaped he hr', hrest⟩
  | @plain c s ps r hquote hslash hc hs ih =>
    cases hends : c.endsLine with
    | true => exact absurd (mem_hiddenEndings.mpr ⟨hends, hc⟩) (hclear c List.mem_cons_self)
    | false =>
      obtain ⟨t, rfl, hst⟩ := (settles_cons_iff hends).mp h
      obtain ⟨r', hr', hrest⟩ := ih hst hclear.of_cons
      exact ⟨r', .plain hquote hslash hc hr', hrest⟩

/-- If a literal can still be read in a settled text, there was no hidden ending in it. -/
theorem Pieces.clear {p q r r' : Text} {ps ps' : List Piece} (hp : Pieces p ps r)
    (hq : Pieces q ps' r') (h : Settles p q) : Settles r r' ∧ ∃ y, p = y ++ r ∧ Clear y := by
  have hclear {c : CodePoint} (hc : c.endsLine = false) : c ∉ hiddenEndings := by
    intro hmem
    rw [(mem_hiddenEndings.mp hmem).1] at hc
    cases hc
  induction hp generalizing q ps' with
  | closing =>
    obtain ⟨t, rfl, hst⟩ := (settles_cons_iff (by decide)).mp h
    cases hq with
    | closing => exact ⟨hst, [.scalar '"'], rfl, .cons (hclear (by decide)) (by simp [Clear])⟩
    | plain hquote => exact absurd rfl hquote
  | numbered hn hs ih =>
    obtain ⟨t, rfl, hst⟩ := settles_numbered hn h
    obtain ⟨ha, hb, hc, hd⟩ := not_endsLine_of_hex4? hn
    cases hq with
    | numbered _ hq =>
      obtain ⟨hrest, y, rfl, hy⟩ := ih hq hst
      exact ⟨hrest, _ :: _ :: _ :: _ :: _ :: _ :: y, rfl, .cons (hclear (by decide))
        (.cons (hclear (by decide)) (.cons (hclear ha) (.cons (hclear hb) (.cons (hclear hc)
          (.cons (hclear hd) hy)))))⟩
    | escaped he => cases he
    | plain _ hslash => exact absurd rfl hslash
  | escaped he hs ih =>
    obtain ⟨t, rfl, hst⟩ := settles_escaped he h
    cases hq with
    | numbered => cases he
    | escaped _ hq =>
      obtain ⟨hrest, y, rfl, hy⟩ := ih hq hst
      exact ⟨hrest, _ :: _ :: y, rfl, .cons (hclear (by decide))
        (.cons (hclear (not_endsLine_of_shortEscape? he)) hy)⟩
    | plain _ hslash => exact absurd rfl hslash
  | @plain c s ps r hquote hslash hc hs ih =>
    cases h with
    | done => exact absurd rfl hq.ne_nil
    | keep hends hst =>
      cases hq with
      | closing => exact absurd rfl hquote
      | numbered => exact absurd rfl hslash
      | escaped => exact absurd rfl hslash
      | plain _ _ _ hq =>
        obtain ⟨hrest, y, rfl, hy⟩ := ih hq hst
        exact ⟨hrest, c :: y, rfl, .cons (hclear hends) hy⟩
    | feed hends hst =>
      -- a line feed took the place of the ending, and a literal cannot hold it
      cases hq with
      | plain _ _ hfeed => exact absurd hfeed (by decide)
    | pair h => exact absurd hc (by decide)

end LintReport.Json
