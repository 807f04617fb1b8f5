import LintReport.Proofs.Finding.Outcome
import LintReport.Proofs.Json.Bounded
import LintReport.Proofs.Output.Document
import LintReport.Proofs.Text.Utf8

/-!
Findings with odd fields. Whatever is found in a field, the finding becomes an issue, in which the
parts of the position that cannot be used are unknown. Only two things end in a fault: an infinite
number in the position, and half a surrogate pair in the path or in the description.
-/
namespace LintReport

open LintReport.Action (value)

/-! ### Positions -/

namespace Position

def isInfinite : Json → Bool
  | .float (.infinite _) => true
  | _ => false

/-- The number that a value can be used as in a position, if it can be used at all. -/
def usable? : Json → Option Int
  | .int n => (some n).filter (0 ≤ ·)
  | .float x => x.truncate?.filter (0 ≤ ·)
  | .string s => s.toInt?.filter (0 ≤ ·)
  | _ => none

theorem bind_nonNegative (n? : Option Int) :
    n?.bind known.nonNegative = n?.filter (0 ≤ ·) := by
  cases n? with
  | none => rfl
  | some n => simp [known.nonNegative, Option.filter]

theorem known_eq (v : Json) :
    known v = if isInfinite v then .error .infinitePosition else .ok (usable? v) := by
  cases v with
  | int n => exact congrArg Except.ok (bind_nonNegative (some n))
  | string s => exact congrArg Except.ok (bind_nonNegative s.toInt?)
  | float x =>
    cases x with
    | infinite negative => rfl
    | _ => exact congrArg Except.ok (bind_nonNegative _)
  | _ => rfl

theorem natAbs_usable?_lt {v : Json} (hv : v.Bounded) {n : Int} (h : usable? v = some n) :
    n.natAbs < Nat.pow 10 maxDigits := by
  cases hv with
  | @int k hk =>
    have hfilter : (some k).filter (0 ≤ ·) = some n := h
    cases (Option.filter_eq_some_iff.mp hfilter).1
    exact hk
  | float hx => exact hx n (Option.filter_eq_some_iff.mp h).1
  | string s => exact Text.natAbs_toInt?_lt (Option.filter_eq_some_iff.mp h).1
  | _ => cases h

end Position

/-! ### Texts without surrogate halves -/

namespace Text

theorem isSurrogate_of_mem_ofChars {cs : List Char} {c : CodePoint} (h : c ∈ ofChars cs) :
    c.isSurrogate = false := by
  obtain ⟨d, -, rfl⟩ := List.mem_map.mp h
  rfl

theorem isSurrogate_of_mem_ofInt {n : Int} {c : CodePoint} (h : c ∈ ofInt n) :
    c.isSurrogate = false := by
  cases n with
  | ofNat n => exact isSurrogate_of_mem_ofChars h
  | negSucc n =>
    rcases List.mem_cons.mp h with rfl | h
    · rfl
    · exact isSurrogate_of_mem_ofChars h

end Text

theorem Position.isSurrogate_of_mem_key {p : Position} {c : CodePoint} (h : c ∈ p.key) :
    c.isSurrogate = false := by
  have hpart : ∀ part : Option Int, ∀ c ∈ keyPart part, c.isSurrogate = false := by
    intro part c hc
    cases part with
    | none => cases hc
    | some n => exact Text.isSurrogate_of_mem_ofInt hc
  simp only [key, Text.join, List.mem_append, List.mem_singleton] at h
  rcases h with (h | rfl) | (h | rfl) | (h | rfl) | h
  · exact hpart _ c h
  · rfl
  · exact hpart _ c h
  · rfl
  · exact hpart _ c h
  · rfl
  · exact hpart _ c h

/-! ### Issues of findings -/

namespace Finding

open Position (isInfinite usable?)

variable (workingDir : Text) (f : Finding)

/-- What the tool said about the position. -/
def parts : List Json := [f.line, f.column, f.endLine, f.endColumn]

/-- The position of a finding, with what can be used of it; line 1 if the line cannot. -/
def place : Position where
  line := (usable? f.line).getD 1
  column := usable? f.column
  endLine := usable? f.endLine
  endColumn := usable? f.endColumn

/-- The text that the fingerprint of a finding is made of. -/
def base : Text :=
  Issue.fingerprintBase (relativePath workingDir f.path.shownOrNothing) f.place f.description

/-- The issue of a finding in which all that cannot be used is unknown. -/
def tolerated : Issue where
  checkName := if f.rule = [] then f.description else f.rule
  description := f.description
  severity := Severity.ofJson f.severity
  location :=
    { path := relativePath workingDir f.path.shownOrNothing
      fullPath := f.path.shownOrNothing
      position := f.place }
  fingerprint := Digest.sha1 ((f.base workingDir).flatMap CodePoint.utf8)

/-- A finding without an infinite number in its position and without half a surrogate pair in its
path and its description. -/
structure Harmless : Prop where
  finite : ∀ v ∈ f.parts, isInfinite v = false
  whole : ∀ c ∈ relativePath workingDir f.path.shownOrNothing ++ f.description,
    c.isSurrogate = false

instance : Decidable (f.Harmless workingDir) :=
  decidable_of_iff ((∀ v ∈ f.parts, isInfinite v = false) ∧
      ∀ c ∈ relativePath workingDir f.path.shownOrNothing ++ f.description, c.isSurrogate = false)
    ⟨fun ⟨finite, whole⟩ => ⟨finite, whole⟩, fun ⟨finite, whole⟩ => ⟨finite, whole⟩⟩

/-- The fault of a finding that does harm. -/
def FaultOf (fault : Fault) : Prop :=
  if f.parts.any isInfinite then fault = .infinitePosition
  else ∃ unencodable, (f.base workingDir).unencodable? 0 = some unencodable ∧
    fault = .unencodable unencodable

variable {workingDir : Text} {f : Finding}

theorem forall_parts {p : Json → Prop} :
    (∀ v ∈ f.parts, p v) ↔ p f.line ∧ p f.column ∧ p f.endLine ∧ p f.endColumn := by
  simp [parts]

theorem position_eq :
    f.position = if f.parts.any isInfinite then .error .infinitePosition else .ok f.place := by
  simp only [position, Position.known_eq, parts, List.any_cons, List.any_nil, Bool.or_false]
  cases isInfinite f.line <;> cases isInfinite f.column <;> cases isInfinite f.endLine <;>
    cases isInfinite f.endColumn <;> rfl

theorem isWritable_place (h : ∀ v ∈ f.parts, v.Bounded) : f.place.isWritable = true := by
  have hpart {part : Option Int} (h : ∀ n, part = some n → n.natAbs < Nat.pow 10 maxDigits) :
      part.elim 0 Int.natAbs < Nat.pow 10 maxDigits := by
    cases part with
    | none => exact Binary64.pow_pos maxDigits
    | some n => exact h n rfl
  have husable (v : Json) (hv : v ∈ f.parts) (n : Int) (hn : usable? v = some n) :=
    Position.natAbs_usable?_lt (h v hv) hn
  have hline (n : Int) (hn : some ((usable? f.line).getD 1) = some n) :
      n.natAbs < Nat.pow 10 maxDigits := by
    cases hn
    cases hv : usable? f.line with
    | none => exact lt_pow_maxDigits (by decide)
    | some n => exact husable f.line (by simp [parts]) n hv
  refine List.all_eq_true.mpr fun part hmem => decide_eq_true (hpart ?_)
  simp only [place, List.mem_cons, List.not_mem_nil, or_false] at hmem
  rcases hmem with rfl | rfl | rfl | rfl
  · exact hline
  all_goals exact husable _ (by simp [parts])

/-- The position adds nothing to a fingerprint that cannot be encoded. -/
theorem unencodable?_base :
    (f.base workingDir).unencodable? 0 = none ↔
      ∀ c ∈ relativePath workingDir f.path.shownOrNothing ++ f.description,
        c.isSurrogate = false := by
  rw [Text.unencodable?_eq_none]
  constructor
  · intro h c hc
    refine h c ?_
    simp only [base, Issue.fingerprintBase, List.mem_append, List.mem_cons] at hc ⊢
    exact hc.imp Or.inl Or.inr
  · intro h c hc
    simp only [base, Issue.fingerprintBase, List.mem_append, List.mem_cons] at h hc
    rcases hc with (hc | rfl | hc) | rfl | hc
    · exact h c (.inl hc)
    · rfl
    · exact Position.isSurrogate_of_mem_key hc
    · rfl
    · exact h c (.inr hc)

theorem toIssue_of_finite (hbounded : ∀ v ∈ f.parts, v.Bounded)
    (hfinite : f.parts.any isInfinite = false) :
    f.toIssue workingDir = match (f.base workingDir).unencodable? 0 with
      | none => .ok (f.tolerated workingDir)
      | some unencodable => .error (.unencodable unencodable) := by
  have hposition : f.position = .ok f.place := by rw [position_eq, hfinite]; rfl
  rw [toIssue, hposition]
  simp only [bind, Except.bind, Issue.sealed, if_true, Issue.fingerprintOf,
    isWritable_place hbounded, Text.encode]
  unfold base
  cases hbase : Text.unencodable? 0 (Issue.fingerprintBase
      (relativePath workingDir f.path.shownOrNothing) f.place f.description) with
  | none => rfl
  | some unencodable => rfl

theorem Harmless.toIssue_eq (h : f.Harmless workingDir) (hbounded : ∀ v ∈ f.parts, v.Bounded) :
    f.toIssue workingDir = .ok (f.tolerated workingDir) := by
  have hfinite : f.parts.any isInfinite = false :=
    List.any_eq_false.mpr fun v hv => by simp [h.finite v hv]
  rw [toIssue_of_finite hbounded hfinite, unencodable?_base.mpr h.whole]

/-- A finding that does harm has no issue. -/
theorem exists_faultOf (hbounded : ∀ v ∈ f.parts, v.Bounded) (h : ¬ f.Harmless workingDir) :
    ∃ fault, f.toIssue workingDir = .error fault ∧ f.FaultOf workingDir fault := by
  unfold FaultOf
  cases hfinite : f.parts.any isInfinite with
  | true =>
    refine ⟨.infinitePosition, ?_, rfl⟩
    rw [toIssue, position_eq, hfinite]
    rfl
  | false =>
    rw [toIssue_of_finite hbounded hfinite]
    cases hbase : (f.base workingDir).unencodable? 0 with
    | some unencodable => exact ⟨_, rfl, unencodable, rfl, rfl⟩
    | none =>
      refine absurd ⟨fun v hv => ?_, unencodable?_base.mp hbase⟩ h
      simpa using List.any_eq_false.mp hfinite v hv

end Finding

/-! ### Findings of an output -/

namespace Decoded

variable {α : Type}

theorem findingOutcome_eq (workingDir output : Text) (d : Decoded Finding) :
    d.findingOutcome workingDir output =
      (d.items.mapM (Finding.toIssue workingDir)).map fun issues =>
        if d.intact then .ok issues else .failed output := by
  rw [findingOutcome, outcome, mapM_single]
  cases d.items.mapM (Finding.toIssue workingDir) with
  | error fault => rfl
  | ok issues =>
    change Except.ok (if d.intact then Outcome.ok (issues.map ([·])).flatten else _) = _
    rw [flatten_single]
    rfl

theorem findingOutcome_of_harmless {workingDir : Text} {d : Decoded Finding}
    (hbounded : ∀ f ∈ d.items, ∀ v ∈ f.parts, v.Bounded)
    (h : ∀ f ∈ d.items, f.Harmless workingDir) (output : Text) :
    d.findingOutcome workingDir output =
      .ok (if d.intact then .ok (d.items.map (·.tolerated workingDir)) else .failed output) := by
  rw [findingOutcome_eq, mapM_of_forall fun f hf => (h f hf).toIssue_eq (hbounded f hf)]
  rfl

/-- What was decoded stood in an entry of the right shape. -/
theorem mem_of_mem_ofEntries {entries : List (Option (List α))} {x : α}
    (h : x ∈ (ofEntries entries).items) : ∃ items, some items ∈ entries ∧ x ∈ items := by
  fun_induction ofEntries entries with
  | case1 => cases h
  | case2 => cases h
  | case3 items entries rest ih =>
    rcases List.mem_append.mp h with h | h
    · exact ⟨items, List.mem_cons_self, h⟩
    · obtain ⟨found, hfound, hx⟩ := ih h
      exact ⟨found, List.mem_cons_of_mem _ hfound, hx⟩

theorem bounded_document {text : Text} {v : Json} (h : Output.document? text = some v) :
    v.Bounded :=
  Json.bounded_read (Output.document?_eq_some.mp h).1

theorem bounded_item {v item : Json} (hv : v.Bounded) (h : item ∈ v.items) : item.Bounded := by
  cases v with
  | array items => exact hv.of_mem h
  | _ => cases h

theorem bounded_file {text file : Text} {files : Table Json} {entry : Json}
    (h : (Output.document? text).bind Output.files? = some files) (hentry : (file, entry) ∈ files) :
    entry.Bounded := by
  obtain ⟨document, hdocument, hfiles⟩ := Option.bind_eq_some_iff.mp h
  have hmember : (document.member "files").Bounded := (bounded_document hdocument).member "files"
  rcases files?_spec [] document with ⟨files', hsome, -, hentries⟩ | ⟨hnone, -⟩
  · obtain rfl : files' = files := Option.some.inj (hsome.symm.trans hfiles)
    cases hm : document.member "files" with
    | object members =>
      rw [hm] at hmember hentries
      subst hentries
      exact hmember.of_member_mem hentry
    | _ =>
      rw [hm] at hentries
      subst hentries
      cases hentry
  · rw [hnone] at hfiles
    cases hfiles

theorem bounded_ofFileMap {name text file : Text} {record : Json}
    (h : (file, record) ∈ (ofFileMap name text).items) : record.Bounded := by
  unfold ofFileMap at h
  split at h
  · cases h
  · next files hfiles =>
    obtain ⟨found, hfound, hmem⟩ := mem_of_mem_ofEntries h
    obtain ⟨⟨file', entry⟩, hentry, heq⟩ := List.mem_map.mp hfound
    obtain ⟨records, hrecords, rfl⟩ := Option.map_eq_some_iff.mp heq
    obtain ⟨record', hrecord, heq⟩ := List.mem_map.mp hmem
    cases heq
    rw [Output.fileRecords?_eq, Option.ite_none_right_eq_some] at hrecords
    obtain ⟨-, heq⟩ := hrecords
    cases heq
    exact bounded_item ((bounded_file hfiles hentry).member name) hrecord

theorem bounded_entry {text : Text} {entries : List Json} {entry : Json}
    (h : Output.items? (Output.document? text) = some entries) (hentry : entry ∈ entries) :
    entry.Bounded := by
  cases hdocument : Output.document? text with
  | none =>
    rw [hdocument] at h
    cases h
  | some v =>
    rw [hdocument] at h
    cases v with
    | array items =>
      cases h
      exact (bounded_document hdocument).of_mem hentry
    | _ => cases h

theorem bounded_ofEntryList {name text : Text} {entry record : Json}
    (h : (entry, record) ∈ (ofEntryList name text).items) : record.Bounded := by
  unfold ofEntryList at h
  split at h
  · cases h
  · next entries hentries =>
    obtain ⟨found, hfound, hmem⟩ := mem_of_mem_ofEntries h
    obtain ⟨entry', hentry, heq⟩ := List.mem_map.mp hfound
    obtain ⟨records, hrecords, rfl⟩ := Option.map_eq_some_iff.mp heq
    obtain ⟨record', hrecord, heq⟩ := List.mem_map.mp hmem
    cases heq
    rw [Output.entryRecords?_eq, Option.ite_none_right_eq_some] at hrecords
    obtain ⟨-, heq⟩ := hrecords
    cases heq
    exact bounded_item ((bounded_entry hentries hentry).member name) hrecord

end Decoded

/-- The findings in the annotations of an output. Without any, the output has to be that of a run
in which nothing was found. -/
def Biome.decodeAnnotations (exitCode : Int) (output : Text) : Decoded Finding :=
  let annotations := Output.Annotation.parseAll output
  ⟨annotations.map annotationFinding,
    annotations ≠ [] ∨ exitCode = 0 ∨ output.trimBlanks = []⟩

theorem Biome.annotationOutcome_eq (path output : Text) (exitCode : Int) :
    annotationOutcome path output exitCode =
      (decodeAnnotations exitCode output).findingOutcome path output := by
  rw [Decoded.findingOutcome_eq, decodeAnnotations, List.mapM_map, annotationOutcome]
  cases Output.Annotation.parseAll output with
  | nil =>
    by_cases h : exitCode = 0 ∨ output.trimBlanks = []
    · simp [h, ← not_or]
      rfl
    · simp [h, ← not_or]
      rfl
  | cons a annotations => rfl

namespace Tool

open Decoded

/-- The findings in an output. They are all that an issue is made of, but for the two tools that
look elsewhere: one reports changes, and the document of the other names bytes of a source. -/
def findings (t : Tool) (exitCode : Int) (output : Text) : Decoded Finding :=
  match t with
  | .psalm => Psalm.decode output
  | .phpStan => PhpStan.decode output
  | .phpCs => PhpCs.decode output
  | .ecs => .spoiled
  | .esLint => EsLint.decode output
  | .styleLint => StyleLint.decode output
  | .biome => Biome.decodeAnnotations exitCode output

variable {s : Settings} {workingDir sourceDir : Path} {t : Tool} {exitCode : Int} {output : Text}

theorem bounded_psalm {f : Finding} (h : f ∈ (Psalm.decode output).items) :
    ∀ v ∈ f.parts, v.Bounded := by
  unfold Psalm.decode at h
  split at h
  · cases h
  · next entries hentries =>
    obtain ⟨found, hfound, hmem⟩ := mem_of_mem_ofEntries h
    obtain ⟨entry, hentry, heq⟩ := List.mem_map.mp hfound
    obtain ⟨members, -, rfl⟩ := Option.map_eq_some_iff.mp heq
    have hbounded := bounded_entry hentries hentry
    rw [List.mem_singleton.mp hmem]
    exact Finding.forall_parts.mpr
      ⟨hbounded.member _, hbounded.member _, hbounded.member _, hbounded.member _⟩

theorem bounded_decodeArray {text : Text} {f : Finding} (h : f ∈ (EsLint.decodeArray text).items) :
    ∀ v ∈ f.parts, v.Bounded := by
  obtain ⟨⟨entry, record⟩, hrecord, rfl⟩ := List.mem_map.mp h
  have hbounded := bounded_ofEntryList hrecord
  exact Finding.forall_parts.mpr
    ⟨hbounded.member _, hbounded.member _, hbounded.member _, hbounded.member _⟩

theorem bounded_number (name : Text) (a : Output.Annotation) : (Biome.number name a).Bounded := by
  unfold Biome.number Output.Annotation.number?
  cases h : (Table.get? name a.properties).bind Text.toInt? with
  | none => exact .null
  | some n =>
    obtain ⟨s, -, hs⟩ := Option.bind_eq_some_iff.mp h
    exact .int (Text.natAbs_toInt?_lt hs)

/-- All numbers that a finding was given for its position may be written. -/
theorem bounded_parts {f : Finding} (h : f ∈ (t.findings exitCode output).items) :
    ∀ v ∈ f.parts, v.Bounded := by
  cases t with
  | psalm => exact bounded_psalm h
  | phpStan =>
    obtain ⟨⟨file, record⟩, hrecord, rfl⟩ := List.mem_map.mp h
    have hbounded := bounded_ofFileMap hrecord
    exact Finding.forall_parts.mpr ⟨hbounded.member _, .null, .null, .null⟩
  | phpCs =>
    obtain ⟨⟨file, record⟩, hrecord, rfl⟩ := List.mem_map.mp h
    have hbounded := bounded_ofFileMap hrecord
    exact Finding.forall_parts.mpr ⟨hbounded.member _, hbounded.member _, .null, .null⟩
  | ecs => cases h
  | esLint => exact bounded_decodeArray h
  | styleLint =>
    obtain ⟨⟨entry, record⟩, hrecord, rfl⟩ := List.mem_map.mp h
    have hbounded := bounded_ofEntryList hrecord
    exact Finding.forall_parts.mpr
      ⟨hbounded.member _, hbounded.member _, hbounded.member _, hbounded.member _⟩
  | biome =>
    obtain ⟨a, -, rfl⟩ := List.mem_map.mp h
    exact Finding.forall_parts.mpr
      ⟨bounded_number _ _, bounded_number _ _, bounded_number _ _, bounded_number _ _⟩

/-- A tool with findings gives the outcome of its findings, and nothing else happens. -/
theorem outcome_eq (ht : t ≠ .ecs) (hreporter : t = .biome → s.reporter = .annotations) :
    t.outcome s workingDir sourceDir exitCode output =
      Action.ofExcept ((t.findings exitCode output).findingOutcome workingDir.toText output) := by
  cases t with
  | ecs => exact absurd rfl ht
  | biome =>
    change Biome.outcome s.reporter _ _ _ _ = _
    rw [hreporter rfl, Biome.outcome, Biome.annotationOutcome_eq]
    rfl
  | _ => rfl

/-- No field of a finding ends a run, but for an infinite number in the position and half a
surrogate pair in the path or in the description: what cannot be used is unknown, and the issue is
there. Otherwise the first finding that has one of the two ends the run in its fault. -/
theorem outcome_tolerates (ht : t ≠ .ecs) (hreporter : t = .biome → s.reporter = .annotations)
    (σ : Session) :
    ((∀ f ∈ (t.findings exitCode output).items, f.Harmless workingDir.toText) →
      (t.outcome s workingDir sourceDir exitCode output).run σ =
        .ok (if (t.findings exitCode output).intact then
          .ok ((t.findings exitCode output).items.map (·.tolerated workingDir.toText))
          else .failed output) σ) ∧
    ∀ before f after, (t.findings exitCode output).items = before ++ f :: after →
      (∀ g ∈ before, g.Harmless workingDir.toText) → ¬ f.Harmless workingDir.toText →
      ∃ fault, (t.outcome s workingDir sourceDir exitCode output).run σ = .error fault σ ∧
        f.FaultOf workingDir.toText fault := by
  have hbounded : ∀ f ∈ (t.findings exitCode output).items, ∀ v ∈ f.parts, v.Bounded :=
    fun f hf => bounded_parts hf
  rw [outcome_eq ht hreporter]
  constructor
  · intro h
    rw [findingOutcome_of_harmless hbounded h]
    rfl
  · intro before f after hitems hbefore hf
    rw [hitems] at hbounded
    obtain ⟨fault, hfault, hof⟩ := Finding.exists_faultOf (hbounded f (by simp)) hf
    refine ⟨fault, ?_, hof⟩
    rw [findingOutcome_eq, hitems, mapM_of_first_error (fun g hg => (hbefore g hg).toIssue_eq
      (hbounded g (List.mem_append_left _ hg))) hfault]
    rfl

/-- A word in the place of a line is tolerated, and an infinite number is not. -/
theorem outcome_tolerates_psalm :
    ∃ s σ issue word infinite,
      (Settings.load none none []).run { workspace := {}, directory := ⟨.slash, []⟩ } = .ok s σ ∧
      (psalm.findings 0 word).items = [Psalm.finding (.object [("line_from", .string "x")])] ∧
      (psalm.outcome s ⟨.slash, []⟩ ⟨.slash, []⟩ 0 word).run σ = .ok (.ok [issue]) σ ∧
      issue.location.position = { line := 1 } ∧
      (psalm.findings 0 infinite).items =
        [Psalm.finding (.object [("line_from", .float (.infinite false))])] ∧
      (psalm.outcome s ⟨.slash, []⟩ ⟨.slash, []⟩ 0 infinite).run σ =
        .error .infinitePosition σ := by
  obtain ⟨s, σ, hload⟩ : ∃ s σ, (Settings.load none none []).run
      { workspace := {}, directory := ⟨.slash, []⟩ } = .ok s σ := ⟨_, _, rfl⟩
  have htolerates (output : Text) :=
    @outcome_tolerates s ⟨.slash, []⟩ ⟨.slash, []⟩ psalm 0 output nofun nofun σ
  let name : List Char := ['[', '{', '"', 'l', 'i', 'n', 'e', '_', 'f', 'r', 'o', 'm', '"', ':']
  let word := Text.ofChars (name ++ ['"', 'x', '"', '}', ']'])
  let infinite := Text.ofChars (name ++ ['1', 'e', '4', '0', '0', '}', ']'])
  have hword : (psalm.findings 0 word).items =
    [Psalm.finding (.object [("line_from", .string "x")])] := rfl
  have hinfinite : (psalm.findings 0 infinite).items =
    [Psalm.finding (.object [("line_from", .float (.infinite false))])] := rfl
  have hharmless : ∀ f ∈ (psalm.findings 0 word).items, f.Harmless [.scalar '/'] := by
    rw [hword]
    exact List.forall_mem_singleton.mpr ⟨by decide, by decide⟩
  have hharmful : ¬ (Psalm.finding (.object [("line_from", .float (.infinite false))])).Harmless
      [.scalar '/'] := fun h => nomatch h.finite _ List.mem_cons_self
  obtain ⟨fault, hrun, hfault⟩ := (htolerates infinite).2 [] _ [] hinfinite nofun hharmful
  cases (hfault : fault = .infinitePosition)
  exact ⟨s, σ, _, word, infinite, hload, hword, (htolerates word).1 hharmless, rfl, hinfinite, hrun⟩

end Tool

end LintReport
