import LintReport.Output.Banner
import LintReport.Output.Envelope
import LintReport.Output.Excision
import LintReport.Proofs.Json.Grammar

/-!
Documents and the ends of texts. Banners and echoed sources may be cut out of a text before it is
read, but its last unit stays where it is. So a text whose last unit closes nothing holds no
document, whatever stands before that unit.
-/
namespace LintReport.Output

open Text (Settles)

/-- Is it an array or an object? -/
def isDocument : Json → Bool
  | .array _ | .object _ => true
  | _ => false

theorem document?_eq_some {s : Text} {v : Json} :
    document? s = some v ↔ Json.read s = .ok v ∧ isDocument v = true := by
  unfold document?
  constructor
  · intro h
    split at h
    · next hread =>
      cases h
      exact ⟨hread, rfl⟩
    · next hread =>
      cases h
      exact ⟨hread, rfl⟩
    · cases h
  · rintro ⟨hread, hv⟩
    rw [hread]
    cases v with
    | array items => rfl
    | object members => rfl
    | _ => cases hv

/-! ### Last units -/

/-- The units that a document, the space behind one, or the trace of an echoed source can end in. -/
def closers : List CodePoint := [.scalar ']', .scalar '}', .scalar ':', .scalar ' ', .scalar '\t']

/-- The last unit of the text closes nothing. -/
def Unclosed (s : Text) : Prop := ∃ c, s.getLast? = some c ∧ c.endsLine = false ∧ c ∉ closers

theorem Unclosed.append {s : Text} (h : Unclosed s) (before : Text) : Unclosed (before ++ s) := by
  obtain ⟨c, hlast, hc⟩ := h
  exact ⟨c, by rw [List.getLast?_append, hlast, Option.some_or], hc⟩

/-- What ends an unclosed text is unclosed itself, unless it is empty and the text before it ends
in a closer or in a line ending. -/
theorem Unclosed.of_append {s before : Text} (h : Unclosed (before ++ s))
    (hbefore : ∀ c, before.getLast? = some c → c.endsLine = true ∨ c ∈ closers) : Unclosed s := by
  obtain ⟨c, hlast, hc, hclosers⟩ := h
  rw [List.getLast?_append] at hlast
  rcases Option.or_eq_some_iff.mp hlast with hs | ⟨-, hb⟩
  · exact ⟨c, hs, hc, hclosers⟩
  · rcases hbefore c hb with hends | hmem
    · rw [hc] at hends
      cases hends
    · exact absurd hmem hclosers

theorem Unclosed.of_cons {x : CodePoint} {s : Text} (h : Unclosed (x :: s)) (hs : s ≠ []) :
    Unclosed s := by
  obtain ⟨c, hlast, hc⟩ := h
  obtain ⟨y, s, rfl⟩ := List.exists_cons_of_ne_nil hs
  rw [List.getLast?_cons_cons] at hlast
  exact ⟨c, hlast, hc⟩

theorem Unclosed.settles {s t : Text} (h : Unclosed s) (hst : Settles s t) : Unclosed t := by
  induction hst with
  | done hall =>
    obtain ⟨c, hlast, hc, -⟩ := h
    rw [hall c (List.mem_of_getLast? hlast)] at hc
    cases hc
  | @keep x s t hx hst ih =>
    by_cases hs : s = []
    · subst hs
      cases hst
      exact h
    · exact (ih (h.of_cons hs)).append [x]
  | @feed x s t hx hst ih =>
    have hbefore : ∀ c, [x].getLast? = some c → c.endsLine = true ∨ c ∈ closers := by
      intro c hc
      cases hc
      exact Or.inl hx
    have happend : Unclosed ([x] ++ s) := h
    exact (ih (happend.of_append hbefore)).append [.scalar '\n']
  | @pair s t hst ih =>
    have hbefore : ∀ c, [CodePoint.scalar '\r', .scalar '\n'].getLast? = some c →
        c.endsLine = true ∨ c ∈ closers := by
      intro c hc
      cases hc
      exact Or.inl (by decide)
    have happend : Unclosed ([.scalar '\r', .scalar '\n'] ++ s) := h
    exact (ih (happend.of_append hbefore)).append [.scalar '\n']

/-! ### What is cut out of a text -/

theorem getLast?_endedLines {ls : List Text} {c : CodePoint}
    (h : (ls.flatMap (· ++ [.scalar '\n'])).getLast? = some c) : c = .scalar '\n' := by
  induction ls with
  | nil => cases h
  | cons l ls ih =>
    rw [List.flatMap_cons, List.getLast?_append, List.getLast?_concat] at h
    rcases Option.or_eq_some_iff.mp h with h | ⟨-, h⟩
    · exact ih h
    · exact (Option.some.inj h).symm

theorem Unclosed.withoutBanner {s : Text} (h : Unclosed s) (opener : Text) :
    Unclosed (withoutBanner opener s) := by
  unfold Output.withoutBanner
  split
  · exact h
  · next hdrop =>
    have hjoined := h.settles (Text.settles_joinLines_lines s)
    rw [← List.takeWhile_append_dropWhile (p := fun line => !Text.beginsWith opener line)
      (l := s.lines), Text.joinLines_append hdrop] at hjoined
    refine hjoined.of_append fun c hc => Or.inl ?_
    rw [getLast?_endedLines hc]
    exact Text.endsLine_feed

theorem Unclosed.withoutSources {s : Text} (h : Unclosed s) : Unclosed (withoutSources s) := by
  fun_induction Output.withoutSources s with
  | case1 s hfirst => exact h
  | case2 s before inside hfirst hsecond => exact h
  | case3 s before inside hfirst echoed rest hsecond ih =>
    rw [Text.eq_of_cut?_eq_some hfirst, Text.eq_of_cut?_eq_some hsecond, ← List.append_assoc] at h
    refine (ih (h.of_append ?_)).append _
    intro c hc
    rw [← List.append_assoc, List.getLast?_append] at hc
    have : sourceClosing.getLast? = some (.scalar ':') := by decide
    rw [this] at hc
    cases hc
    exact Or.inr (by decide)

/-! ### Documents -/

theorem document?_of_unclosed {s : Text} (h : Unclosed s) : document? s = none := by
  obtain ⟨c, hlast, hc, hclosers⟩ := h
  cases hd : document? s with
  | none => rfl
  | some v =>
    obtain ⟨hread, hv⟩ := document?_eq_some.mp hd
    obtain ⟨y, closing, z, rfl, hclosing, hz⟩ := Json.read_closing hread
    rw [List.getLast?_append, List.getLast?_cons, Option.some_or] at hlast
    cases hlastz : z.getLast? with
    | none =>
      rw [hlastz, Option.getD_none] at hlast
      obtain rfl : closing = c := Option.some.inj hlast
      cases v with
      | array items => exact absurd (hclosing ▸ by decide) hclosers
      | object members => exact absurd (hclosing ▸ by decide) hclosers
      | _ => cases hv
    | some x =>
      rw [hlastz, Option.getD_some] at hlast
      obtain rfl : x = c := Option.some.inj hlast
      have hspace := hz x (List.mem_of_getLast? hlastz)
      simp only [Json.isSpace, decide_eq_true_eq] at hspace
      rcases hspace with rfl | rfl | rfl | rfl
      · exact absurd (by decide) hclosers
      · exact absurd (by decide) hclosers
      · cases hc
      · cases hc

end LintReport.Output
