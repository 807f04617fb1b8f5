import LintReport.Session.Command
import LintReport.Proofs.Json.Surviving
import LintReport.Proofs.Output.Document
import LintReport.Proofs.Text.Utf8

/-!
Transport of documents. A document goes from a tool to its decoder through bytes and through lines,
twice, and banner lines before it are dropped on the way. What arrives is the document itself,
unless a string in it holds one of the units that end a line and yet need no escape.
-/
namespace LintReport.Output

open Json (Clear Reads hiddenEndings read_settles read_eq_ok)
open Text (IsLine Settles)

/-! ### Openers -/

/-- The units that a document can start with. -/
def openers : List CodePoint := [.scalar '[', .scalar '\x7b']

theorem not_endsLine_opener {c : CodePoint} (hc : c ∈ openers) : c.endsLine = false := by
  simp only [openers, List.mem_cons, List.not_mem_nil, or_false] at hc
  rcases hc with rfl | rfl <;> decide

theorem isDocument_of_opener {c : CodePoint} {rest : Text} {v : Json} (hc : c ∈ openers)
    (h : Json.read (c :: rest) = .ok v) : isDocument v = true := by
  obtain ⟨-, r, hreads, -⟩ := read_eq_ok.mp h
  simp only [openers, List.mem_cons, List.not_mem_nil, or_false] at hc
  rcases hc with rfl | rfl
  · rw [Json.skipSpace_of_not_isSpace (by decide)] at hreads
    cases hreads with
    | word hs => cases hs
    | number hs => cases hs
    | _ => rfl
  · rw [Json.skipSpace_of_not_isSpace (by decide)] at hreads
    cases hreads with
    | word hs => cases hs
    | number hs => cases hs
    | _ => rfl

/-! ### Banners -/

/-- A line before a document. -/
structure IsBanner (opener : CodePoint) (l : Text) : Prop where
  isLine : IsLine l
  closed : Text.beginsWith [opener] l = false

theorem beginsWith_head (c : CodePoint) (s : Text) : Text.beginsWith [c] (c :: s) = true := by
  simp [Text.beginsWith, Text.after?]

theorem lines_head {c : CodePoint} (hc : c.endsLine = false) (s : Text) :
    ∃ l ls, Text.lines (c :: s) = (c :: l) :: ls := by
  rw [Text.lines_of_not_endsLine hc]
  cases Text.lines s with
  | nil => exact ⟨[], [], rfl⟩
  | cons l ls => exact ⟨l, ls, rfl⟩

theorem withoutBanner_lines {c : CodePoint} {banner : List Text} {s t : Text}
    (hc : c.endsLine = false) (hbanner : ∀ l ∈ banner, IsBanner c l)
    (hs : s.lines = banner ++ Text.lines (c :: t)) :
    withoutBanner [c] s = Text.joinLines (Text.lines (c :: t)) := by
  obtain ⟨l, ls, hlines⟩ := lines_head hc t
  have hdrop : (s.lines.dropWhile fun line => !Text.beginsWith [c] line) =
      Text.lines (c :: t) := by
    rw [hs, List.dropWhile_append_of_pos fun l hl => by simp [(hbanner l hl).closed], hlines,
      List.dropWhile_cons_of_neg (by simp [beginsWith_head])]
  rw [withoutBanner, hdrop, hlines]

/-- Banner lines vanish, and what is behind them settles. -/
theorem settles_withoutBanner {c : CodePoint} {banner : List Text} (hc : c.endsLine = false)
    (hbanner : ∀ l ∈ banner, IsBanner c l) (rest : Text) :
    Settles (c :: rest) (withoutBanner [c] (Text.joinLines (Text.lines
      (Text.unifyNewlines (banner.flatMap (· ++ [.scalar '\n']) ++ c :: rest))))) := by
  have hlines : ∀ l ∈ banner, IsLine l := fun l hl => (hbanner l hl).isLine
  have hfirst := Text.settles_joinLines_lines (c :: rest)
  obtain ⟨t, ht, -⟩ := (Text.settles_cons_iff hc).mp hfirst
  rw [Text.lines_unifyNewlines, Text.lines_append_lines hlines,
    Text.joinLines_append (Text.lines_ne_nil (List.cons_ne_nil c rest)), ht,
    withoutBanner_lines hc hbanner (Text.lines_append_lines hlines _)]
  rw [ht] at hfirst
  exact hfirst.trans (Text.settles_joinLines_lines (c :: t))

/-! ### Documents behind banners -/

/-- The document that a process prints behind banner lines is decoded as what it spells, unless a
hidden ending stands in it; then nothing is decoded. -/
theorem document?_transported {w : Workspace} {command : List Text} {limit : Option Seconds}
    {process : Process} {banner : List Text} {c : CodePoint} {rest : Text} {v : Json}
    (hc : c ∈ openers) (hbanner : ∀ l ∈ banner, IsBanner c l)
    (hread : Json.read (c :: rest) = .ok v) (hprocess : w.process? command = some process)
    (hends : limit = none ∨ process.hangs = false)
    (houtput : Text.encode (banner.flatMap (· ++ [.scalar '\n']) ++ c :: rest) =
      .ok process.output) :
    ∃ r, Command.resultIn w command limit = .ok r ∧ r.exitCode = process.exitCode ∧
      document? (withoutBanner [c] r.output) =
        if ∃ x ∈ c :: rest, x ∈ hiddenEndings then none else some v := by
  have hfinish : Command.finish limit process = Command.completed process := by
    cases limit with
    | none => rfl
    | some limit =>
      rw [Command.finish, hends.resolve_left (by simp)]
      rfl
  have hresult : Command.resultIn w command limit = .ok (Command.completed process) := by
    cases command with
    | nil => cases hprocess
    | cons word arguments =>
      rw [Command.resultIn, hprocess]
      exact congrArg Except.ok hfinish
  refine ⟨_, hresult, rfl, ?_⟩
  have hsettles := settles_withoutBanner (not_endsLine_opener hc) hbanner rest
  rw [← Utf8.decodeLossy_encode houtput] at hsettles
  have hdocument (v' : Json) :
      Json.read (withoutBanner [c] (Command.completed process).output) = .ok v' ↔ _ :=
    read_settles hsettles hread
  split
  · next hhidden =>
    obtain ⟨x, hx, hmem⟩ := hhidden
    cases hd : document? (withoutBanner [c] (Command.completed process).output) with
    | none => rfl
    | some v' =>
      obtain ⟨hclear, -⟩ := (hdocument v').mp (document?_eq_some.mp hd).1
      exact absurd hmem (hclear x hx)
  · next hclear =>
    refine document?_eq_some.mpr ⟨(hdocument v).mpr ⟨?_, rfl⟩, isDocument_of_opener hc hread⟩
    exact fun x hx hmem => hclear ⟨x, hx, hmem⟩

/-- A string that is one line separator, behind a line of the tool. -/
theorem document?_transported_separator :
    ∃ bytes v r,
      Text.encode (([Text.ofString "Deprecated"].flatMap (· ++ [.scalar '\n'])) ++
        Text.ofChars ['[', '"', '\u2028', '"', ']']) = .ok bytes ∧
      Json.read (Text.ofChars ['[', '"', '\u2028', '"', ']']) = .ok v ∧
      Command.resultIn { tools := [("psalm", { output := bytes })] } ["psalm"] none = .ok r ∧
      document? (withoutBanner "[" r.output) = none := by
  obtain ⟨bytes, v, houtput, hread⟩ : ∃ bytes v,
      Text.encode (([Text.ofString "Deprecated"].flatMap (· ++ [.scalar '\n'])) ++
        Text.ofChars ['[', '"', '\u2028', '"', ']']) = .ok bytes ∧
      Json.read (Text.ofChars ['[', '"', '\u2028', '"', ']']) = .ok v :=
    ⟨_, _, rfl, rfl⟩
  have hbanner : ∀ l ∈ [Text.ofString "Deprecated"], IsBanner (.scalar '[') l := by
    intro l hl
    rw [List.mem_singleton.mp hl]
    exact ⟨by unfold IsLine; decide, by decide⟩
  have hprocess : Workspace.process? { tools := [("psalm", { output := bytes })] } ["psalm"] =
      some { output := bytes } := rfl
  obtain ⟨r, hresult, -, hdocument⟩ :=
    document?_transported (by decide) hbanner hread hprocess (Or.inl rfl) houtput
  exact ⟨bytes, v, r, houtput, hread, hresult, hdocument.trans (if_pos (by decide))⟩

end LintReport.Output
