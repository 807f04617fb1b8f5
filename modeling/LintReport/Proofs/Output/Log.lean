import LintReport.Proofs.Output.Annotation

/-!
Build logs. Annotations stand in a log line by line, between lines of other kinds, and they are all
that is read from it. That works as long as they take one line each: a unit that ends a line and has
no code breaks an annotation in two, and what is read is never the annotation that was written.
-/
namespace LintReport.Output

open Text (IsLine joinLines lines)

/-- A line of a build log: an annotation, or a text of another kind. -/
inductive LogLine where
  | entry (a : Annotation)
  | other (s : Text)

namespace LogLine

def written : LogLine → Text
  | entry a => a.written
  | other s => s

def annotations : LogLine → List Annotation
  | entry a => [a]
  | other _ => []

end LogLine

/-- The lines of a log, with line feeds between them. -/
def logText (ls : List LogLine) : Text := joinLines (ls.map LogLine.written)

def logAnnotations (ls : List LogLine) : List Annotation := ls.flatMap LogLine.annotations

namespace Annotation

/-- An annotation whose severity is a word and whose properties have words for names. -/
structure Lettered (a : Annotation) : Prop where
  severity_ne : a.severity ≠ []
  letters : ∀ c ∈ a.severity, isLetter c = true
  distinct : (a.properties.map Prod.fst).Nodup
  names : ∀ name ∈ a.properties.map Prod.fst, ∀ c ∈ name, isLetter c = true

variable {a : Annotation} {c : CodePoint} {s t word : Text}

/-! ### Letters -/

theorem value_of_isLetter (h : isLetter c = true) : 0x41 ≤ c.value ∧ c.value ≤ 0x7A := by
  cases c with
  | surrogate half => cases h
  | scalar c =>
    delta isLetter Char.isAlpha Char.isUpper Char.isLower at h
    simp only [Bool.or_eq_true, Bool.and_eq_true, decide_eq_true_eq, ge_iff_le,
      UInt32.le_iff_toNat_le] at h
    have hvalue : (CodePoint.scalar c).value = c.val.toNat := rfl
    rcases h with h | h
    · have hbounds : 0x41 ≤ c.val.toNat ∧ c.val.toNat ≤ 0x5A := h
      omega
    · have hbounds : 0x61 ≤ c.val.toNat ∧ c.val.toNat ≤ 0x7A := h
      omega

theorem ne_of_isLetter {mark : CodePoint} (h : isLetter c = true) (hmark : isLetter mark = false) :
    c ≠ mark := by
  rintro rfl
  exact Bool.false_ne_true (hmark.symm.trans h)

theorem isLine_of_letters (h : ∀ c ∈ word, isLetter c = true) : IsLine word := by
  intro c hc
  have hvalue := value_of_isLetter (h c hc)
  exact Text.not_endsLine (by omega) (by omega)

theorem trimBlanks_of_letters (h : ∀ c ∈ word, isLetter c = true) : word.trimBlanks = word := by
  have hblank : ∀ c ∈ word, c.isBlank = false := by
    intro c hc
    have hvalue := value_of_isLetter (h c hc)
    simp only [CodePoint.isBlank, CodePoint.isWhiteSpace, CodePoint.inRanges, whiteSpaceRanges,
      List.any_cons, List.any_nil, Bool.or_false, Bool.or_eq_false_iff, Bool.and_eq_false_iff,
      decide_eq_false_iff_not]
    omega
  exact Text.trim_eq_self (fun c hc => hblank c (List.mem_of_mem_head? hc))
    fun c hc => hblank c (List.mem_of_mem_getLast? hc)

theorem Lettered.writable (h : Lettered a) : Writable a where
  severity_ne := h.severity_ne
  letters := h.letters
  distinct := h.distinct
  plain := by
    intro name hname
    have hmark {mark : CodePoint} (hmark : isLetter mark = false) : mark ∉ name :=
      fun hmem => ne_of_isLetter (h.names name hname mark hmem) hmark rfl
    exact ⟨hmark (by decide), hmark (by decide), hmark (by decide)⟩
  trimmed := fun name hname => trimBlanks_of_letters (h.names name hname)

theorem Lettered.isLine_written (h : Lettered a) (hline : OneLine a) : IsLine (written a) :=
  hline.isLine_written (isLine_of_letters h.letters)
    fun name hname => isLine_of_letters (h.names name hname)

end Annotation

open Annotation

/-- A line of letters and marks in their places: no mark of an annotation stands in another line. -/
def LogLine.Proper : LogLine → Prop
  | entry a => a.Lettered
  | other s => ¬ Text.ofString "::" <:+: s

variable {a : Annotation} {l : LogLine} {ls : List LogLine} {s t : Text}

/-! ### Line by line -/

theorem parseAll_of_not_infix (h : ¬ Text.ofString "::" <:+: s) : parseAll s = [] := by
  apply List.filterMap_eq_nil_iff.mpr
  intro line hline
  apply parse?_of_not_infix
  intro hin
  have hmark : IsLine (Text.ofString "::") := Text.isLine_ofString (by decide)
  exact h ((Text.settles_joinLines_lines s).infix_left hmark (hin.trans (Text.infix_join hline)))

theorem not_infix_feed (h : ¬ Text.ofString "::" <:+: s) :
    ¬ Text.ofString "::" <:+: s ++ [.scalar '\n'] := by
  intro hin
  rcases List.infix_concat_iff.mp hin with hsuffix | hin
  · have hlast := hsuffix.getLast (by decide)
    rw [List.getLast_append_singleton] at hlast
    exact absurd hlast (by decide)
  · exact h hin

/-- What is read from a line of a log and from what follows it. -/
theorem parseAll_written_append (hl : l.Proper) (hline : ∀ a ∈ l.annotations, OneLine a) (t : Text) :
    parseAll (l.written ++ .scalar '\n' :: t) = l.annotations.map lowered ++ parseAll t := by
  cases l with
  | entry a =>
    have hwritten := Lettered.isLine_written hl (hline a List.mem_cons_self)
    rw [LogLine.written, parseAll, Text.lines_append_line hwritten, List.filterMap_cons,
      parse?_written (Lettered.writable hl)]
    rfl
  | other s =>
    rw [LogLine.written, parseAll, Text.lines_append_feed, List.filterMap_append, ← parseAll,
      parseAll_of_not_infix (not_infix_feed hl)]
    rfl

theorem parseAll_written (hl : l.Proper) (hline : ∀ a ∈ l.annotations, OneLine a) :
    parseAll l.written = l.annotations.map lowered := by
  cases l with
  | entry a =>
    have hwritten := Lettered.isLine_written hl (hline a List.mem_cons_self)
    rw [LogLine.written, parseAll, Text.lines_of_isLine hwritten (List.cons_ne_nil _ _),
      List.filterMap_cons, parse?_written (Lettered.writable hl)]
    rfl
  | other s => exact parseAll_of_not_infix hl

theorem parseAll_logText_of_oneLine (h : ∀ l ∈ ls, l.Proper)
    (hline : ∀ a ∈ logAnnotations ls, OneLine a) :
    parseAll (logText ls) = (logAnnotations ls).map lowered := by
  induction ls with
  | nil => rfl
  | cons l ls ih =>
    obtain ⟨hl, hls⟩ := List.forall_mem_cons.mp h
    rw [logAnnotations, List.flatMap_cons, ← logAnnotations] at hline ⊢
    obtain ⟨hlineFirst, hlineRest⟩ := List.forall_mem_append.mp hline
    by_cases hne : ls = []
    · subst hne
      have hnil : logAnnotations [] = [] := rfl
      rw [hnil, List.append_nil]
      exact parseAll_written hl hlineFirst
    · rw [logText, List.map_cons, Text.joinLines_cons (mt List.map_eq_nil_iff.mp hne),
        parseAll_written_append hl hlineFirst, ← logText, ih hls hlineRest, List.map_append]

/-- The annotations of a log are read as they were written, each in its place and with its severity
in lower case, if and only if each of them can be written on one line. -/
theorem parseAll_logText (h : ∀ l ∈ ls, l.Proper) :
    parseAll (logText ls) = (logAnnotations ls).map lowered ↔
      ∀ a ∈ logAnnotations ls, OneLine a := by
  constructor
  · intro hparse a ha
    have hmem : lowered a ∈ parseAll (logText ls) := hparse ▸ List.mem_map_of_mem ha
    obtain ⟨line, hline, hread⟩ := List.mem_filterMap.mp hmem
    have hone := oneLine_of_parse? (Text.isLine_of_mem_lines _ line hline) hread
    exact ⟨hone.message, hone.values⟩
  · exact parseAll_logText_of_oneLine h

/-- A line separator has no code, and it ends the message. -/
example : (parseAll "::error title=a::x\u2028y").map Annotation.message = [Text.ofString "x"] := by
  decide

end LintReport.Output
