import LintReport.Proofs.Json.Grammar
import LintReport.Proofs.Json.Settled

/-!
Values in settled texts. What a text without hidden endings spells, it still spells when it has
settled; a text with a hidden ending spells nothing then, since the ending stood in a literal.
-/
namespace LintReport.Json

open Text (Settles not_endsLine settles_cons_iff)

/-! ### Spaces -/

theorem clear_spaces {y : Text} (h : ∀ c ∈ y, isSpace c = true) : Clear y := by
  intro c hc hmem
  have hspace := h c hc
  simp only [hiddenEndings, List.mem_cons, List.not_mem_nil, or_false] at hmem
  rcases hmem with rfl | rfl | rfl <;> exact absurd hspace (by decide)

theorem Clear.after_space {s : Text} (h : Clear s) : Clear (skipSpace s) :=
  h.of_suffix (skipSpace_suffix s)

theorem skipSpace_of_isSpace {c : CodePoint} {s : Text} (hc : isSpace c = true) :
    skipSpace (c :: s) = skipSpace s := by
  rw [skipSpace, List.dropWhile_cons_of_pos hc, skipSpace]

theorem skipSpace_of_not_isSpace {c : CodePoint} {s : Text} (hc : ¬ isSpace c = true) :
    skipSpace (c :: s) = c :: s := by
  rw [skipSpace, List.dropWhile_cons_of_neg hc]

/-- Spaces vanish alike before a unit that ends no line. -/
theorem skipSpace_settles {p q rest : Text} {c : CodePoint} (h : Settles p q)
    (hp : skipSpace p = c :: rest) (hc : c.endsLine = false) :
    ∃ rest', skipSpace q = c :: rest' ∧ Settles rest rest' := by
  induction h with
  | @done s hall =>
    have hmem : c ∈ skipSpace s := hp ▸ List.mem_cons_self
    rw [hall c ((skipSpace_suffix s).subset hmem)] at hc
    cases hc
  | @keep d s t hd h ih =>
    by_cases hspace : isSpace d = true
    · rw [skipSpace_of_isSpace hspace] at hp ⊢
      exact ih hp
    · rw [skipSpace_of_not_isSpace hspace] at hp ⊢
      cases hp
      exact ⟨t, rfl, h⟩
  | @feed d s t hd h ih =>
    rw [skipSpace_of_isSpace (c := .scalar '\n') (by decide)]
    by_cases hspace : isSpace d = true
    · rw [skipSpace_of_isSpace hspace] at hp
      exact ih hp
    · rw [skipSpace_of_not_isSpace hspace] at hp
      cases hp
      rw [hd] at hc
      cases hc
  | pair h ih =>
    rw [skipSpace_of_isSpace (by decide), skipSpace_of_isSpace (by decide)] at hp
    rw [skipSpace_of_isSpace (by decide)]
    exact ih hp

theorem skipSpace_settles_nil {p q : Text} (h : Settles p q) (hp : skipSpace p = []) :
    skipSpace q = [] := by
  induction h with
  | done => rfl
  | @keep d s t hd h ih =>
    by_cases hspace : isSpace d = true
    · rw [skipSpace_of_isSpace hspace] at hp ⊢
      exact ih hp
    · rw [skipSpace_of_not_isSpace hspace] at hp
      cases hp
  | @feed d s t hd h ih =>
    by_cases hspace : isSpace d = true
    · rw [skipSpace_of_isSpace hspace] at hp
      rw [skipSpace_of_isSpace (by decide)]
      exact ih hp
    · rw [skipSpace_of_not_isSpace hspace] at hp
      cases hp
  | pair h ih =>
    rw [skipSpace_of_isSpace (by decide), skipSpace_of_isSpace (by decide)] at hp
    rw [skipSpace_of_isSpace (by decide)]
    exact ih hp

/-! ### Values -/

/-- Nothing that is read starts with the end of a line. -/
theorem Reads.head {s r : Text} {x : Parsed} (h : Reads s x r) :
    ∃ c t, s = c :: t ∧ c.endsLine = false := by
  have hgraphic {s y r : Text} (hne : y ≠ []) (hy : IsGraphic y) (hs : s = y ++ r) :
      ∃ c t, s = c :: t ∧ c.endsLine = false := by
    obtain ⟨c, y, rfl⟩ := List.exists_cons_of_ne_nil hne
    have hc := hy c List.mem_cons_self
    exact ⟨c, y ++ r, hs, not_endsLine hc.1 hc.2⟩
  induction h with
  | word _ h =>
    obtain ⟨y, hne, hy, hs⟩ := readWord?_split h
    exact hgraphic hne hy hs
  | number _ _ h =>
    obtain ⟨y, hne, hy, hs⟩ := readNumber_split h
    exact hgraphic hne hy hs
  | lastItem _ _ ih => exact ih
  | item _ _ _ ih => exact ih
  | _ => exact ⟨_, _, rfl, by decide⟩

theorem Reads.settles_skipSpace {s t r : Text} {x : Parsed} (h : Reads (skipSpace s) x r)
    (hst : Settles s t) : Settles (skipSpace s) (skipSpace t) := by
  obtain ⟨c, rest, hs, hc⟩ := h.head
  obtain ⟨rest', ht, hrest⟩ := skipSpace_settles hst hs hc
  rw [hs, ht]
  exact .keep hc hrest

theorem Reads.clear_rest {s r : Text} {x : Parsed} (h : Reads s x r) (hs : Clear s) : Clear r := by
  obtain ⟨c, hsuffix, -⟩ := h.exists_suffix
  exact (hs.of_suffix hsuffix).of_cons

theorem ne_cons_of_settles {c : CodePoint} {s t : Text} (hc : c.endsLine = false)
    (h : Settles s t) (hs : ∀ rest, s ≠ c :: rest) : ∀ rest, t ≠ c :: rest := by
  rcases settles_head hc h with ⟨s', _, hs', -⟩ | ⟨-, hne⟩
  · exact absurd hs' (hs s')
  · exact hne

theorem opens_settles {p q : Text} (h : Settles p q) : opens q = opens p := by
  have hplain {s : Text} (hquote : ∀ t, s ≠ .scalar '"' :: t) (harray : ∀ t, s ≠ .scalar '[' :: t)
      (hobject : ∀ t, s ≠ .scalar '{' :: t) : opens s = false := by
    rw [opens]
    · exact hquote
    · exact harray
    · exact hobject
  rcases settles_head (c := .scalar '"') (by decide) h with ⟨s, t, rfl, rfl, -⟩ | ⟨hp, hq⟩
  · rfl
  rcases settles_head (c := .scalar '[') (by decide) h with ⟨s, t, rfl, rfl, -⟩ | ⟨hp', hq'⟩
  · rfl
  rcases settles_head (c := .scalar '{') (by decide) h with ⟨s, t, rfl, rfl, -⟩ | ⟨hp'', hq''⟩
  · rfl
  rw [hplain hp hp' hp'', hplain hq hq' hq'']

theorem Clear.of_skipSpace {s rest : Text} {c : CodePoint} (h : Clear s)
    (hs : skipSpace s = c :: rest) : Clear rest :=
  (h.of_suffix (suffix_of_skipSpace hs)).of_cons

theorem readString_settles {s t name r : Text} (h : readString s = .ok (name, r))
    (hst : Settles s t) (hs : Clear s) :
    ∃ r', readString t = .ok (name, r') ∧ Settles r r' ∧ Clear r := by
  have hclear := (hs.of_suffix (readString_suffix h)).of_cons
  obtain ⟨ps, hpieces, rfl⟩ := readString_eq_ok.mp h
  obtain ⟨r', hpieces', hr⟩ := hpieces.settles hst hs
  exact ⟨r', readString_eq_ok.mpr ⟨ps, hpieces', rfl⟩, hr, hclear⟩

/-- The name of a member and the colon behind it. -/
theorem key_settles {s t name r inner : Text} (hn : readString s = .ok (name, r))
    (hc : skipSpace r = .scalar ':' :: inner) (hst : Settles s t) (hs : Clear s) :
    ∃ r' inner', readString t = .ok (name, r') ∧ skipSpace r' = .scalar ':' :: inner' ∧
      Settles inner inner' ∧ Clear (skipSpace inner) := by
  obtain ⟨r', hn', hr, hclear⟩ := readString_settles hn hst hs
  obtain ⟨inner', hc', hinner⟩ := skipSpace_settles hr hc (by decide)
  exact ⟨r', inner', hn', hc', hinner, (hclear.of_skipSpace hc).after_space⟩

/-- Without hidden endings, what is read in a text is read in the settled text as well. -/
theorem Reads.settles {p r : Text} {x : Parsed} (h : Reads p x r) :
    ∀ {q}, Settles p q → Clear p → ∃ r', Reads q x r' ∧ Settles r r' := by
  induction h with
  | string h =>
    intro q hq hp
    obtain ⟨t, rfl, hst⟩ := (settles_cons_iff (by decide)).mp hq
    obtain ⟨r', hstring, hr, -⟩ := readString_settles h hst hp.of_cons
    exact ⟨r', .string hstring, hr⟩
  | emptyArray h =>
    intro q hq hp
    obtain ⟨t, rfl, hst⟩ := (settles_cons_iff (by decide)).mp hq
    obtain ⟨r', ht, hr⟩ := skipSpace_settles hst h (by decide)
    exact ⟨r', .emptyArray ht, hr⟩
  | array hs h ih =>
    intro q hq hp
    obtain ⟨t, rfl, hst⟩ := (settles_cons_iff (by decide)).mp hq
    have hskip := h.settles_skipSpace hst
    obtain ⟨r', ht, hr⟩ := ih hskip hp.of_cons.after_space
    exact ⟨r', .array (ne_cons_of_settles (by decide) hskip hs) ht, hr⟩
  | emptyObject h =>
    intro q hq hp
    obtain ⟨t, rfl, hst⟩ := (settles_cons_iff (by decide)).mp hq
    obtain ⟨r', ht, hr⟩ := skipSpace_settles hst h (by decide)
    exact ⟨r', .emptyObject ht, hr⟩
  | object hs h ih =>
    intro q hq hp
    obtain ⟨t, rfl, hst⟩ := (settles_cons_iff (by decide)).mp hq
    have hskip := h.settles_skipSpace hst
    obtain ⟨r', ht, hr⟩ := ih hskip hp.of_cons.after_space
    exact ⟨r', .object (ne_cons_of_settles (by decide) hskip hs) ht, hr⟩
  | word hs h =>
    intro q hq hp
    rcases readWord?_settles hq with ⟨v, r, r', hword, hword', hr⟩ | ⟨hnone, -⟩
    · rw [h] at hword
      cases hword
      exact ⟨r', .word (by rw [opens_settles hq, hs]) hword', hr⟩
    · rw [h] at hnone
      cases hnone
  | number hs hw h =>
    intro q hq hp
    obtain ⟨r', hnumber, hr⟩ := readNumber_settles hq h
    rcases readWord?_settles hq with ⟨v, r, r', hword, -⟩ | ⟨-, hnone⟩
    · rw [hw] at hword
      cases hword
    · exact ⟨r', .number (by rw [opens_settles hq, hs]) hnone hnumber, hr⟩
  | lastItem hv hr ih =>
    intro q hq hp
    obtain ⟨r₁, hv', hr₁⟩ := ih hq hp
    obtain ⟨rest', hr', hrest⟩ := skipSpace_settles hr₁ hr (by decide)
    exact ⟨rest', .lastItem hv' hr', hrest⟩
  | item hv hr hvs ihv ihvs =>
    intro q hq hp
    obtain ⟨r₁, hv', hr₁⟩ := ihv hq hp
    obtain ⟨rest', hr', hrest⟩ := skipSpace_settles hr₁ hr (by decide)
    have hclear := (hv.clear_rest hp).of_skipSpace hr
    obtain ⟨out, hvs', hout⟩ := ihvs (hvs.settles_skipSpace hrest) hclear.after_space
    exact ⟨out, .item hv' hr' hvs', hout⟩
  | lastMember hn hc hv hr ih =>
    intro q hq hp
    obtain ⟨t, rfl, hst⟩ := (settles_cons_iff (by decide)).mp hq
    obtain ⟨r₁, inner', hn', hc', hinner, hclear⟩ := key_settles hn hc hst hp.of_cons
    obtain ⟨r₂, hv', hr₂⟩ := ih (hv.settles_skipSpace hinner) hclear
    obtain ⟨rest', hr', hrest⟩ := skipSpace_settles hr₂ hr (by decide)
    exact ⟨rest', .lastMember hn' hc' hv' hr', hrest⟩
  | member hn hc hv hr hms ihv ihms =>
    intro q hq hp
    obtain ⟨t, rfl, hst⟩ := (settles_cons_iff (by decide)).mp hq
    obtain ⟨r₁, inner', hn', hc', hinner, hclear⟩ := key_settles hn hc hst hp.of_cons
    obtain ⟨r₂, hv', hr₂⟩ := ihv (hv.settles_skipSpace hinner) hclear
    obtain ⟨rest', hr', hrest⟩ := skipSpace_settles hr₂ hr (by decide)
    have hlast := ((hv.clear_rest hclear).of_skipSpace hr).after_space
    obtain ⟨out, hms', hout⟩ := ihms (hms.settles_skipSpace hrest) hlast
    exact ⟨out, .member hn' hc' hv' hr' hms', hout⟩

/-! ### What can still be read -/

/-- No hidden ending stands in a text before what is left of it. -/
def ClearUntil (p r : Text) : Prop := ∃ y, p = y ++ r ∧ Clear y

theorem ClearUntil.trans {p r u : Text} (h : ClearUntil p r) (h' : ClearUntil r u) :
    ClearUntil p u := by
  obtain ⟨y, rfl, hy⟩ := h
  obtain ⟨z, rfl, hz⟩ := h'
  exact ⟨y ++ z, (List.append_assoc _ _ _).symm, hy.append hz⟩

theorem not_mem_hiddenEndings {c : CodePoint} (hc : c.endsLine = false) : c ∉ hiddenEndings := by
  intro hmem
  rw [(mem_hiddenEndings.mp hmem).1] at hc
  cases hc

theorem ClearUntil.cons {c : CodePoint} {p r : Text} (hc : c.endsLine = false)
    (h : ClearUntil p r) : ClearUntil (c :: p) r := by
  obtain ⟨y, rfl, hy⟩ := h
  exact ⟨c :: y, rfl, hy.cons (not_mem_hiddenEndings hc)⟩

theorem clearUntil_skipSpace (s : Text) : ClearUntil s (skipSpace s) := by
  obtain ⟨y, hy, hs⟩ := skipSpace_split s
  exact ⟨y, hs, clear_spaces hy⟩

theorem clearUntil_of_skipSpace {s rest : Text} {c : CodePoint} (h : skipSpace s = c :: rest)
    (hc : c.endsLine = false) : ClearUntil s rest := by
  have hskip := clearUntil_skipSpace s
  rw [h] at hskip
  exact hskip.trans (.cons hc ⟨[], rfl, by simp [Clear]⟩)

theorem readString_clear {s t name name' r r' : Text} (h : readString s = .ok (name, r))
    (h' : readString t = .ok (name', r')) (hst : Settles s t) : Settles r r' ∧ ClearUntil s r := by
  obtain ⟨ps, hpieces, -⟩ := readString_eq_ok.mp h
  obtain ⟨ps', hpieces', -⟩ := readString_eq_ok.mp h'
  exact hpieces.clear hpieces' hst

theorem skipSpace_clear {s t rest rest' : Text} {c c' : CodePoint} (hst : Settles s t)
    (h : skipSpace s = c :: rest) (h' : skipSpace t = c' :: rest') (hc : c.endsLine = false) :
    c' = c ∧ Settles rest rest' ∧ ClearUntil s rest := by
  obtain ⟨out, hout, hsettles⟩ := skipSpace_settles hst h hc
  rw [hout] at h'
  cases h'
  exact ⟨rfl, hsettles, clearUntil_of_skipSpace h hc⟩

/-- The name of a member and the colon behind it. -/
theorem key_clear {s t name name' r r' inner inner' : Text} {c c' : CodePoint}
    (hst : Settles s t) (h : readString s = .ok (name, r)) (h' : readString t = .ok (name', r'))
    (hr : skipSpace r = c :: inner) (hr' : skipSpace r' = c' :: inner')
    (hc : c.endsLine = false) : Settles inner inner' ∧ ClearUntil s (skipSpace inner) := by
  obtain ⟨hsettles, hclear⟩ := readString_clear h h' hst
  obtain ⟨-, hinner, hmark⟩ := skipSpace_clear hsettles hr hr' hc
  exact ⟨hinner, hclear.trans (hmark.trans (clearUntil_skipSpace inner))⟩

theorem IsGraphic.clearUntil {y r : Text} (hy : IsGraphic y) : ClearUntil (y ++ r) r :=
  ⟨y, rfl, hy.clear⟩

/-! ### What the first unit says -/

/-- Two results of the same kind. -/
def Parsed.Alike : Parsed → Parsed → Prop
  | .value _, .value _ | .items _, .items _ | .members _, .members _ => True
  | _, _ => False

section First

variable {v : Json} {x : Parsed} {q t r : Text}

theorem Reads.of_quote (h : Reads (.scalar '"' :: t) x r) (hx : (Parsed.value v).Alike x) :
    ∃ name, readString t = .ok (name, r) := by
  cases h with
  | string h => exact ⟨_, h⟩
  | word hs => cases hs
  | number hs => cases hs
  | _ => exact hx.elim

theorem Reads.of_bracket (h : Reads (.scalar '[' :: t) x r) (hx : (Parsed.value v).Alike x) :
    skipSpace t = .scalar ']' :: r ∨
      (∀ rest, skipSpace t ≠ .scalar ']' :: rest) ∧ ∃ vs, Reads (skipSpace t) (.items vs) r := by
  cases h with
  | emptyArray h => exact .inl h
  | array hs h => exact .inr ⟨hs, _, h⟩
  | word hs => cases hs
  | number hs => cases hs
  | _ => exact hx.elim

theorem Reads.of_brace (h : Reads (.scalar '{' :: t) x r) (hx : (Parsed.value v).Alike x) :
    skipSpace t = .scalar '}' :: r ∨
      (∀ rest, skipSpace t ≠ .scalar '}' :: rest) ∧ ∃ ms, Reads (skipSpace t) (.members ms) r := by
  cases h with
  | emptyObject h => exact .inl h
  | object hs h => exact .inr ⟨hs, _, h⟩
  | word hs => cases hs
  | number hs => cases hs
  | _ => exact hx.elim

theorem Reads.word_or_number (h : Reads q x r) (hx : (Parsed.value v).Alike x)
    (hq : opens q = false) :
    (∃ v', readWord? q = some (v', r)) ∨ readWord? q = none ∧ ∃ v', readNumber q = .ok (v', r) := by
  cases h with
  | word _ h => exact Or.inl ⟨_, h⟩
  | number _ hw h => exact Or.inr ⟨hw, _, h⟩
  | lastItem => exact hx.elim
  | item => exact hx.elim
  | _ => cases hq

end First

/-! ### One step of both readings -/

/-- Whenever the same kind of thing can be read in the settled text, no hidden ending stood in what
was read, and what is left settles to what is left. -/
def StaysClear (p : Text) (x : Parsed) (r : Text) : Prop :=
  ∀ ⦃q x' r'⦄, Reads q x' r' → x.Alike x' → Settles p q → Settles r r' ∧ ClearUntil p r

/-- Both readings close at once what they opened. -/
theorem closed_clear {s t r r' : Text} {c : CodePoint} {Opened : Prop} (hst : Settles s t)
    (h : skipSpace s = c :: r) (hc : c.endsLine = false)
    (h' : skipSpace t = c :: r' ∨ (∀ rest, skipSpace t ≠ c :: rest) ∧ Opened) :
    Settles r r' ∧ ClearUntil s r := by
  obtain ⟨r₁, ht, hr⟩ := skipSpace_settles hst h hc
  rcases h' with h' | ⟨hne, -⟩
  · cases ht.symm.trans h'
    exact ⟨hr, clearUntil_of_skipSpace h hc⟩
  · exact absurd ht (hne r₁)

namespace StaysClear

variable {v : Json} {vs : List Json} {ms : List (Text × Json)}
  {s t p q r r' rest rest' out name inner : Text} {c c' : CodePoint}

theorem string (h : readString s = .ok (name, r)) :
    StaysClear (.scalar '"' :: s) (.value (.string name)) r := by
  intro q x' r' hq hx hpq
  obtain ⟨t, rfl, hst⟩ := (settles_cons_iff (by decide)).mp hpq
  obtain ⟨_, h'⟩ := hq.of_quote hx
  obtain ⟨hr, hclear⟩ := readString_clear h h' hst
  exact ⟨hr, .cons (by decide) hclear⟩

theorem emptyArray (h : skipSpace s = .scalar ']' :: r) :
    StaysClear (.scalar '[' :: s) (.value (.array [])) r := by
  intro q x' r' hq hx hpq
  obtain ⟨t, rfl, hst⟩ := (settles_cons_iff (by decide)).mp hpq
  obtain ⟨hr, hclear⟩ := closed_clear hst h (by decide) (hq.of_bracket hx)
  exact ⟨hr, .cons (by decide) hclear⟩

theorem array (hs : ∀ rest, skipSpace s ≠ .scalar ']' :: rest)
    (h : Reads (skipSpace s) (.items vs) r) (ih : StaysClear (skipSpace s) (.items vs) r) :
    StaysClear (.scalar '[' :: s) (.value (.array vs)) r := by
  intro q x' r' hq hx hpq
  obtain ⟨t, rfl, hst⟩ := (settles_cons_iff (by decide)).mp hpq
  have hskip := h.settles_skipSpace hst
  rcases hq.of_bracket hx with hclosed | ⟨-, _, h'⟩
  · exact absurd hclosed (ne_cons_of_settles (by decide) hskip hs r')
  · obtain ⟨hr, hclear⟩ := ih h' trivial hskip
    exact ⟨hr, .cons (by decide) ((clearUntil_skipSpace s).trans hclear)⟩

theorem emptyObject (h : skipSpace s = .scalar '}' :: r) :
    StaysClear (.scalar '{' :: s) (.value (.object [])) r := by
  intro q x' r' hq hx hpq
  obtain ⟨t, rfl, hst⟩ := (settles_cons_iff (by decide)).mp hpq
  obtain ⟨hr, hclear⟩ := closed_clear hst h (by decide) (hq.of_brace hx)
  exact ⟨hr, .cons (by decide) hclear⟩

theorem object (hs : ∀ rest, skipSpace s ≠ .scalar '}' :: rest)
    (h : Reads (skipSpace s) (.members ms) r) (ih : StaysClear (skipSpace s) (.members ms) r) :
    StaysClear (.scalar '{' :: s) (.value (.object (Table.ofList ms))) r := by
  intro q x' r' hq hx hpq
  obtain ⟨t, rfl, hst⟩ := (settles_cons_iff (by decide)).mp hpq
  have hskip := h.settles_skipSpace hst
  rcases hq.of_brace hx with hclosed | ⟨-, _, h'⟩
  · exact absurd hclosed (ne_cons_of_settles (by decide) hskip hs r')
  · obtain ⟨hr, hclear⟩ := ih h' trivial hskip
    exact ⟨hr, .cons (by decide) ((clearUntil_skipSpace s).trans hclear)⟩

theorem word (hs : opens s = false) (h : readWord? s = some (v, r)) :
    StaysClear s (.value v) r := by
  intro q x' r' hq hx hpq
  obtain ⟨y, -, hy, rfl⟩ := readWord?_split h
  rcases readWord?_settles hpq with ⟨_, r₁, _, hp, hsame, hr⟩ | ⟨hnone, -⟩
  · cases h.symm.trans hp
    rcases hq.word_or_number hx (by rw [opens_settles hpq, hs]) with ⟨_, h'⟩ | ⟨hnone, -⟩
    · cases hsame.symm.trans h'
      exact ⟨hr, hy.clearUntil⟩
    · cases hsame.symm.trans hnone
  · cases h.symm.trans hnone

theorem number (hs : opens s = false) (hw : readWord? s = none)
    (h : readNumber s = .ok (v, r)) : StaysClear s (.value v) r := by
  intro q x' r' hq hx hpq
  obtain ⟨y, -, hy, hsplit⟩ := readNumber_split h
  obtain ⟨r₁, hsame, hr⟩ := readNumber_settles hpq h
  rcases readWord?_settles hpq with ⟨_, _, _, hp, -⟩ | ⟨-, hnone⟩
  · cases hw.symm.trans hp
  · rcases hq.word_or_number hx (by rw [opens_settles hpq, hs]) with ⟨_, h'⟩ | ⟨-, _, h'⟩
    · cases hnone.symm.trans h'
    · cases hsame.symm.trans h'
      exact ⟨hr, hsplit ▸ hy.clearUntil⟩

/-- A value and the mark behind it, which ends no line and so is the same in both texts. -/
theorem mark {v' : Json} (ih : StaysClear p (.value v) r) (hr : skipSpace r = c :: rest)
    (hc : c.endsLine = false) (hv' : Reads q (.value v') r') (hr' : skipSpace r' = c' :: rest')
    (hpq : Settles p q) : c' = c ∧ Settles rest rest' ∧ ClearUntil p rest := by
  obtain ⟨hrest, hclear⟩ := ih hv' trivial hpq
  obtain ⟨hmark, hsettles, hend⟩ := skipSpace_clear hrest hr hr' hc
  exact ⟨hmark, hsettles, hclear.trans hend⟩

theorem lastItem (ih : StaysClear s (.value v) r) (hr : skipSpace r = .scalar ']' :: rest) :
    StaysClear s (.items [v]) rest := by
  intro q x' r' hq hx hpq
  cases hq with
  | lastItem hv' hr' => exact (ih.mark hr (by decide) hv' hr' hpq).2
  | item hv' hr' _ => exact absurd (ih.mark hr (by decide) hv' hr' hpq).1 (by decide)
  | _ => exact hx.elim

theorem item (ihv : StaysClear s (.value v) r) (hr : skipSpace r = .scalar ',' :: rest)
    (hvs : Reads (skipSpace rest) (.items vs) out)
    (ihvs : StaysClear (skipSpace rest) (.items vs) out) :
    StaysClear s (.items (v :: vs)) out := by
  intro q x' r' hq hx hpq
  cases hq with
  | lastItem hv' hr' => exact absurd (ihv.mark hr (by decide) hv' hr' hpq).1 (by decide)
  | item hv' hr' hvs' =>
    obtain ⟨-, hsettles, hclear⟩ := ihv.mark hr (by decide) hv' hr' hpq
    obtain ⟨hlast, hclear'⟩ := ihvs hvs' trivial (hvs.settles_skipSpace hsettles)
    exact ⟨hlast, hclear.trans ((clearUntil_skipSpace rest).trans hclear')⟩
  | _ => exact hx.elim

/-- A member, with its name and the colon, and the mark behind it. -/
theorem memberMark {name' s₁ inner' : Text} {v' : Json} (hn : readString s = .ok (name, s₁))
    (hk : skipSpace s₁ = .scalar ':' :: inner) (hv : Reads (skipSpace inner) (.value v) r)
    (ih : StaysClear (skipSpace inner) (.value v) r) (hr : skipSpace r = c :: rest)
    (hc : c.endsLine = false) {t₁ : Text} (hn' : readString t = .ok (name', t₁))
    (hk' : skipSpace t₁ = .scalar ':' :: inner') (hv' : Reads (skipSpace inner') (.value v') r')
    (hr' : skipSpace r' = c' :: rest') (hst : Settles s t) :
    c' = c ∧ Settles rest rest' ∧ ClearUntil s rest := by
  obtain ⟨hinner, hkey⟩ := key_clear hst hn hn' hk hk' (by decide)
  obtain ⟨hmark, hsettles, hclear⟩ := ih.mark hr hc hv' hr' (hv.settles_skipSpace hinner)
  exact ⟨hmark, hsettles, hkey.trans hclear⟩

theorem lastMember (hn : readString s = .ok (name, r)) (hc : skipSpace r = .scalar ':' :: inner)
    (hv : Reads (skipSpace inner) (.value v) r')
    (ih : StaysClear (skipSpace inner) (.value v) r') (hr : skipSpace r' = .scalar '}' :: rest) :
    StaysClear (.scalar '"' :: s) (.members [(name, v)]) rest := by
  intro q x' r' hq hx hpq
  obtain ⟨t, rfl, hst⟩ := (settles_cons_iff (by decide)).mp hpq
  cases hq with
  | lastMember hn' hc' hv' hr' =>
    obtain ⟨-, hrest, hclear⟩ := memberMark hn hc hv ih hr (by decide) hn' hc' hv' hr' hst
    exact ⟨hrest, .cons (by decide) hclear⟩
  | member hn' hc' hv' hr' _ =>
    have hmark := (memberMark hn hc hv ih hr (by decide) hn' hc' hv' hr' hst).1
    exact absurd hmark (by decide)
  | _ => exact hx.elim

theorem member (hn : readString s = .ok (name, r)) (hc : skipSpace r = .scalar ':' :: inner)
    (hv : Reads (skipSpace inner) (.value v) r')
    (ihv : StaysClear (skipSpace inner) (.value v) r') (hr : skipSpace r' = .scalar ',' :: rest)
    (hms : Reads (skipSpace rest) (.members ms) out)
    (ihms : StaysClear (skipSpace rest) (.members ms) out) :
    StaysClear (.scalar '"' :: s) (.members ((name, v) :: ms)) out := by
  intro q x' r' hq hx hpq
  obtain ⟨t, rfl, hst⟩ := (settles_cons_iff (by decide)).mp hpq
  cases hq with
  | lastMember hn' hc' hv' hr' =>
    have hmark := (memberMark hn hc hv ihv hr (by decide) hn' hc' hv' hr' hst).1
    exact absurd hmark (by decide)
  | member hn' hc' hv' hr' hms' =>
    obtain ⟨-, hrest, hclear⟩ := memberMark hn hc hv ihv hr (by decide) hn' hc' hv' hr' hst
    obtain ⟨hlast, hclear'⟩ := ihms hms' trivial (hms.settles_skipSpace hrest)
    exact ⟨hlast, .cons (by decide) (hclear.trans ((clearUntil_skipSpace rest).trans hclear'))⟩
  | _ => exact hx.elim

end StaysClear

/-- If something can still be read in the settled text, there was no hidden ending in it. -/
theorem Reads.clear {p r : Text} {x : Parsed} (h : Reads p x r) : StaysClear p x r := by
  -- Both readings take the same steps, for the marks that part them end no line and so stay where
  -- they were. Only a literal could hold a hidden ending.
  induction h with
  | string h => exact StaysClear.string h
  | emptyArray h => exact StaysClear.emptyArray h
  | array hs h ih => exact StaysClear.array hs h ih
  | emptyObject h => exact StaysClear.emptyObject h
  | object hs h ih => exact StaysClear.object hs h ih
  | word hs h => exact StaysClear.word hs h
  | number hs hw h => exact StaysClear.number hs hw h
  | lastItem _ hr ih => exact StaysClear.lastItem ih hr
  | item _ hr hvs ihv ihvs => exact StaysClear.item ihv hr hvs ihvs
  | lastMember hn hc hv hr ih => exact StaysClear.lastMember hn hc hv ih hr
  | member hn hc hv hr hms ihv ihms => exact StaysClear.member hn hc hv ihv hr hms ihms

/-! ### Whole texts -/

theorem hasMark_settles {p q : Text} (h : Settles p q) : hasMark q = hasMark p := by
  have hplain {s : Text} (hs : ∀ t, s ≠ .scalar '\uFEFF' :: t) : hasMark s = false := by
    rw [hasMark]
    exact hs
  rcases settles_head (c := .scalar '\uFEFF') (by decide) h with ⟨s, t, rfl, rfl, -⟩ | ⟨hp, hq⟩
  · rfl
  · rw [hplain hp, hplain hq]

/-- A settled text spells what the text spelled if that has no hidden endings, and spells nothing
if it has. -/
theorem read_settles {p q : Text} {v v' : Json} (h : Settles p q) (hp : read p = .ok v) :
    read q = .ok v' ↔ Clear p ∧ v' = v := by
  obtain ⟨hmark, r, hreads, hr⟩ := read_eq_ok.mp hp
  have hskip := hreads.settles_skipSpace h
  have hsame (hclear : Clear p) : read q = .ok v := by
    obtain ⟨r', hreads', hrest⟩ := hreads.settles hskip hclear.after_space
    exact read_eq_ok.mpr ⟨by rw [hasMark_settles h, hmark], r', hreads',
      skipSpace_settles_nil hrest hr⟩
  constructor
  · intro hq
    obtain ⟨-, r', hreads', -⟩ := read_eq_ok.mp hq
    obtain ⟨-, hclear⟩ := hreads.clear hreads' trivial hskip
    have hspaces := clearUntil_skipSpace r
    rw [hr] at hspaces
    obtain ⟨y, hy, hyclear⟩ := (clearUntil_skipSpace p).trans (hclear.trans hspaces)
    rw [List.append_nil] at hy
    have hp : Clear p := hy ▸ hyclear
    rw [hsame hp] at hq
    exact ⟨hp, (Except.ok.inj hq).symm⟩
  · rintro ⟨hclear, rfl⟩
    exact hsame hclear

end LintReport.Json
