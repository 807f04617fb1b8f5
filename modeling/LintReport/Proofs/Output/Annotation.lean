import LintReport.Proofs.Output.Escape
import LintReport.Proofs.Text.Fields
import LintReport.Proofs.Text.Lines
import LintReport.Proofs.Text.Table
import LintReport.Proofs.Text.Trimmed

/-!
Annotations as a tool writes them. Their values escape every mark that gives a line its parts, so a
written annotation is read back as it was, but for the case of its severity. In a log it stands on
one line if all units in it that end a line have a code; others have none, and they break it.
-/
namespace LintReport

namespace Output

open Text (IsLine)

namespace Annotation

/-- A property as it is written. -/
def writtenProperty (entry : Text × Text) : Text :=
  entry.1 ++ .scalar '=' :: escapeProperty entry.2

/-- The properties as they are written, behind a blank if there are any. -/
def writtenProperties : Table Text → Text
  | [] => []
  | properties => .scalar ' ' :: Text.join [.scalar ','] (properties.map writtenProperty)

theorem writtenProperties_of_ne_nil {properties : Table Text} (h : properties ≠ []) :
    writtenProperties properties =
      .scalar ' ' :: Text.join [.scalar ','] (properties.map writtenProperty) := by
  cases properties with
  | nil => exact absurd rfl h
  | cons entry properties => rfl

/-- An annotation as it is written. -/
def written (a : Annotation) : Text :=
  "::" ++ a.severity ++ writtenProperties a.properties ++ "::" ++ escapeMessage a.message

/-- The annotation with its severity in lower case, which is how it is read. -/
def lowered (a : Annotation) : Annotation := { a with severity := Text.asciiLower a.severity }

/-- An annotation whose severity is a word and whose properties have proper names. -/
structure Writable (a : Annotation) : Prop where
  severity_ne : a.severity ≠ []
  letters : ∀ c ∈ a.severity, isLetter c = true
  distinct : (a.properties.map Prod.fst).Nodup
  plain : ∀ name ∈ a.properties.map Prod.fst,
    .scalar '=' ∉ name ∧ .scalar ',' ∉ name ∧ .scalar ':' ∉ name
  trimmed : ∀ name ∈ a.properties.map Prod.fst, name.trimBlanks = name

variable {a : Annotation} {entry : Text × Text} {message props s : Text} {c : CodePoint}

/-! ### Parts of a written annotation -/

theorem property?_writtenProperty (hplain : .scalar '=' ∉ entry.1)
    (htrimmed : entry.1.trimBlanks = entry.1) : property? (writtenProperty entry) = some entry := by
  have hname : ¬ Text.ofString "=" <:+: entry.1 := by
    intro hin
    exact hplain (hin.subset (List.mem_singleton.mpr rfl))
  have hcut := Text.cut?_append (by decide) hname (escapeProperty entry.2)
  have hwritten : writtenProperty entry = entry.1 ++ Text.ofString "=" ++ escapeProperty entry.2 := by
    simp [writtenProperty, Text.ofString]
  rw [property?, hwritten, hcut, Option.map_some]
  dsimp only
  rw [htrimmed, unescapeProperty_escapeProperty]

theorem filterMap_property? {properties : Table Text}
    (hplain : ∀ entry ∈ properties, .scalar '=' ∉ entry.1)
    (htrimmed : ∀ entry ∈ properties, entry.1.trimBlanks = entry.1) :
    (properties.map writtenProperty).filterMap property? = properties := by
  induction properties with
  | nil => rfl
  | cons entry properties ih =>
    obtain ⟨hentry, hplain⟩ := List.forall_mem_cons.mp hplain
    obtain ⟨hentry', htrimmed⟩ := List.forall_mem_cons.mp htrimmed
    rw [List.map_cons, List.filterMap_cons, property?_writtenProperty hentry hentry',
      ih hplain htrimmed]

theorem not_mem_writtenProperty (hname : c ∉ entry.1) (hequals : c ≠ .scalar '=')
    (hvalue : c ∉ escapeProperty entry.2) : c ∉ writtenProperty entry := by
  intro h
  rcases List.mem_append.mp h with h | h
  · exact hname h
  · rcases List.mem_cons.mp h with h | h
    · exact hequals h
    · exact hvalue h

/-- Written properties are read back as they were. -/
theorem Writable.readProperties_join (h : Writable a) (hne : a.properties ≠ []) :
    readProperties (Text.join [.scalar ','] (a.properties.map writtenProperty)) = a.properties := by
  have hname {entry : Text × Text} (hentry : entry ∈ a.properties) :
      entry.1 ∈ a.properties.map Prod.fst := List.mem_map_of_mem hentry
  have hcomma : ∀ part ∈ a.properties.map writtenProperty, .scalar ',' ∉ part := by
    intro part hpart
    obtain ⟨entry, hentry, rfl⟩ := List.mem_map.mp hpart
    exact not_mem_writtenProperty (h.plain _ (hname hentry)).2.1 (by decide)
      (not_mem_escape (by decide) (by decide) entry.2)
  have hparts : a.properties.map writtenProperty ≠ [] := mt List.map_eq_nil_iff.mp hne
  rw [readProperties, Text.fields_join hparts hcomma,
    filterMap_property? (fun entry hentry => (h.plain _ (hname hentry)).1)
      (fun entry hentry => h.trimmed _ (hname hentry))]
  exact Table.ofList_eq h.distinct

theorem Writable.not_mem_join (h : Writable a) :
    .scalar ':' ∉ Text.join [.scalar ','] (a.properties.map writtenProperty) := by
  intro hcolon
  rcases Text.mem_of_mem_join hcolon with hcolon | ⟨part, hpart, hcolon⟩
  · exact absurd hcolon (by decide)
  · obtain ⟨entry, hentry, rfl⟩ := List.mem_map.mp hpart
    exact not_mem_writtenProperty (h.plain _ (List.mem_map_of_mem hentry)).2.2 (by decide)
      (not_mem_escape (by decide) (by decide) entry.2) hcolon

theorem splitMessage?_blank (hprops : .scalar ':' ∉ props) (message : Text) :
    splitMessage? (.scalar ' ' :: (props ++ "::" ++ message)) = some (props, message) := by
  have hkeep : ∀ c ∈ props, decide (c ≠ .scalar ':') = true := by
    intro c hc
    exact decide_eq_true fun hcolon => hprops (hcolon ▸ hc)
  rw [splitMessage?, List.append_assoc, List.dropWhile_append_of_pos hkeep,
    List.takeWhile_append_of_pos hkeep]
  have hstop : props ++ (Text.ofString "::" ++ message).takeWhile (· ≠ .scalar ':') = props :=
    List.append_nil props
  have hafter : Text.after? "::"
      ((Text.ofString "::" ++ message).dropWhile (· ≠ .scalar ':')) = some message :=
    Text.after?_eq_some.mpr rfl
  rw [hstop, hafter, Option.map_some]

/-- What stands behind the severity: the message behind two colons, or a blank and properties before
that. -/
theorem splitMessage?_eq_some_iff : splitMessage? s = some (props, message) ↔
    s = "::" ++ message ∧ props = [] ∨
      s = .scalar ' ' :: (props ++ Text.ofString "::" ++ message) ∧ .scalar ':' ∉ props := by
  constructor
  · intro h
    unfold splitMessage? at h
    split at h
    · next s =>
      obtain ⟨rest, hafter, heq⟩ := Option.map_eq_some_iff.mp h
      cases heq
      have hcolon : .scalar ':' ∉ s.takeWhile (· ≠ .scalar ':') := by
        intro hmem
        have hkept := List.mem_takeWhile_imp hmem
        exact of_decide_eq_true hkept rfl
      rw [List.append_assoc, ← Text.after?_eq_some.mp hafter, List.takeWhile_append_dropWhile]
      exact Or.inr ⟨rfl, hcolon⟩
    · obtain ⟨rest, hafter, heq⟩ := Option.map_eq_some_iff.mp h
      cases heq
      exact Or.inl ⟨Text.after?_eq_some.mp hafter, rfl⟩
  · rintro (⟨rfl, rfl⟩ | ⟨rfl, hprops⟩)
    · rfl
    · exact splitMessage?_blank hprops message

/-- What stands between the severity and the message gives the properties. -/
theorem Writable.splitMessage?_written (h : Writable a) (message : Text) :
    ∃ props, splitMessage? (writtenProperties a.properties ++ "::" ++ message) =
      some (props, message) ∧ readProperties props = a.properties := by
  by_cases hne : a.properties = []
  · exact ⟨[], by rw [hne]; rfl, by rw [hne]; rfl⟩
  · refine ⟨Text.join [.scalar ','] (a.properties.map writtenProperty), ?_,
      h.readProperties_join hne⟩
    rw [writtenProperties_of_ne_nil hne]
    exact splitMessage?_blank h.not_mem_join message

/-- A message on one line may have a line feed behind it. -/
theorem oneLine?_eq_some_iff : oneLine? s = some message ↔
    .scalar '\n' ∉ message ∧ (s = message ∨ s = message ++ [.scalar '\n']) := by
  have hsplit := List.takeWhile_append_dropWhile (p := (· ≠ .scalar '\n')) (l := s)
  constructor
  · have hfeed : .scalar '\n' ∉ s.takeWhile (· ≠ .scalar '\n') := by
      intro hmem
      have hkept := List.mem_takeWhile_imp hmem
      exact of_decide_eq_true hkept rfl
    intro h
    unfold oneLine? at h
    split at h
    · next hrest =>
      cases h
      rw [hrest, List.append_nil] at hsplit
      exact ⟨hfeed, Or.inl hsplit.symm⟩
    · next c hrest =>
      cases h
      have hc := List.head?_dropWhile_not (· ≠ .scalar '\n') s
      rw [hrest] at hc hsplit
      have hc : c = .scalar '\n' := not_not.mp (of_decide_eq_false hc)
      exact ⟨hfeed, Or.inr (hc ▸ hsplit.symm)⟩
    · cases h
  · rintro ⟨hfeed, hs⟩
    have hkeep : ∀ c ∈ message, decide (c ≠ .scalar '\n') = true := by
      intro c hc
      exact decide_eq_true fun heq => hfeed (heq ▸ hc)
    rcases hs with rfl | rfl
    · rw [oneLine?, List.dropWhile_eq_nil_iff.mpr hkeep, List.takeWhile_eq_self_iff.mpr hkeep]
    · rw [oneLine?, List.dropWhile_append_of_pos hkeep, List.takeWhile_append_of_pos hkeep]
      exact congrArg some (List.append_nil message)

theorem exists_cons_of_splitMessage? (h : splitMessage? s = some (props, message)) :
    ∃ c rest, s = c :: rest ∧ isLetter c = false := by
  rcases splitMessage?_eq_some_iff.mp h with ⟨rfl, -⟩ | ⟨rfl, -⟩
  · exact ⟨.scalar ':', .scalar ':' :: message, rfl, rfl⟩
  · exact ⟨.scalar ' ', _, rfl, rfl⟩

/-- The letters of a severity end where the properties or the message may start. -/
theorem spanLetters_of_splitMessage? {severity tail : Text}
    (hletters : ∀ c ∈ severity, isLetter c = true) (h : splitMessage? tail = some (props, message)) :
    (severity ++ tail).takeWhile isLetter = severity ∧
      (severity ++ tail).dropWhile isLetter = tail := by
  obtain ⟨c, rest, rfl, hc⟩ := exists_cons_of_splitMessage? h
  have hstop : ¬ isLetter c = true := by simp [hc]
  rw [List.takeWhile_append_of_pos hletters, List.takeWhile_cons_of_neg hstop,
    List.dropWhile_append_of_pos hletters, List.dropWhile_cons_of_neg hstop]
  exact ⟨List.append_nil severity, rfl⟩

/-- A line is read part by part. -/
theorem parse?_of_splitMessage? {severity tail rest : Text}
    (hline : Text.trimRight (· = .scalar '\r') s = "::" ++ (severity ++ tail)) (hne : severity ≠ [])
    (hletters : ∀ c ∈ severity, isLetter c = true) (hsplit : splitMessage? tail = some (props, rest))
    (hmessage : oneLine? rest = some message) :
    parse? s = some
      { severity := Text.asciiLower severity
        message := unescapeMessage message
        properties := readProperties props } := by
  have hafter : Text.after? "::" (Text.trimRight (· = .scalar '\r') s) = some (severity ++ tail) :=
    Text.after?_eq_some.mpr hline
  obtain ⟨htake, hdrop⟩ := spanLetters_of_splitMessage? hletters hsplit
  simp only [parse?, hafter, Option.bind_eq_bind, Option.bind_some, htake, hdrop, if_neg hne,
    hsplit, hmessage]
  rfl

/-- A written annotation is read back, but for the case of its severity. -/
theorem parse?_written (h : Writable a) : parse? (written a) = some (lowered a) := by
  have htrim : Text.trimRight (· = .scalar '\r') (written a) = written a := by
    have hstop : ∀ c ∈ Text.ofString "::" ++ escapeMessage a.message,
        decide (c = .scalar '\r') = false := by
      intro c hc
      apply decide_eq_false
      rintro rfl
      rcases List.mem_append.mp hc with hc | hc
      · exact absurd hc (by decide)
      · exact not_mem_escape (by decide) (by decide) a.message hc
    rw [written, List.append_assoc]
    exact Text.trimRight_append (List.cons_ne_nil _ _) hstop _
  have hline : Text.trimRight (· = .scalar '\r') (written a) = "::" ++
      (a.severity ++ (writtenProperties a.properties ++ "::" ++ escapeMessage a.message)) := by
    rw [htrim]
    simp only [written, List.append_assoc]
  obtain ⟨props, hsplit, hprops⟩ := h.splitMessage?_written (escapeMessage a.message)
  have hfeed : .scalar '\n' ∉ escapeMessage a.message :=
    not_mem_escape (by decide) (by decide) a.message
  have hmessage := oneLine?_eq_some_iff.mpr ⟨hfeed, Or.inl rfl⟩
  rw [parse?_of_splitMessage? hline h.severity_ne h.letters hsplit hmessage, hprops,
    unescapeMessage_escapeMessage]
  rfl

/-! ### Values on one line -/

/-- A text in which every unit that ends a line has a code. -/
def Coded (s : Text) : Prop :=
  ∀ c ∈ s, c.endsLine = true → c = .scalar '\r' ∨ c = .scalar '\n'

instance (s : Text) : Decidable (Coded s) :=
  inferInstanceAs (Decidable (∀ c ∈ s, c.endsLine = true → c = .scalar '\r' ∨ c = .scalar '\n'))

/-- An annotation whose values can be written on one line. -/
structure OneLine (a : Annotation) : Prop where
  message : Coded a.message
  values : ∀ entry ∈ a.properties, Coded entry.2

theorem isLine_escape {codes : List (Text × CodePoint)} (hcodes : ∀ entry ∈ codes, IsLine entry.1)
    (hreturn : .scalar '\r' ∈ codes.map Prod.snd) (hfeed : .scalar '\n' ∈ codes.map Prod.snd)
    (h : Coded s) : IsLine (escape codes s) := by
  intro c hc
  rcases mem_of_mem_escape hc with ⟨entry, hentry, hc⟩ | ⟨hc, hnone⟩
  · exact hcodes entry hentry c hc
  · apply Bool.eq_false_iff.mpr
    intro hends
    rcases h c hc hends with rfl | rfl
    · exact hnone hreturn
    · exact hnone hfeed

/-- What is read from one line has no other endings in it than those with a code. -/
theorem coded_unescape {codes : List (Text × CodePoint)}
    (hcodes : ∀ c ∈ codes.map Prod.snd, c.endsLine = true → c = .scalar '\r' ∨ c = .scalar '\n')
    (h : IsLine s) : Coded (unescape codes s) := by
  intro c hc hends
  rcases mem_of_mem_unescape hc with hc | hc
  · rw [h c hc] at hends
    cases hends
  · exact hcodes c hc hends

theorem isLine_writtenProperties (hnames : ∀ name ∈ a.properties.map Prod.fst, IsLine name)
    (hvalues : ∀ entry ∈ a.properties, Coded entry.2) : IsLine (writtenProperties a.properties) := by
  by_cases hne : a.properties = []
  · rw [hne]
    exact fun c hc => absurd hc List.not_mem_nil
  rw [writtenProperties_of_ne_nil hne]
  refine IsLine.cons (by decide) fun c hc => ?_
  rcases Text.mem_of_mem_join hc with hc | ⟨part, hpart, hc⟩
  · rw [List.mem_singleton.mp hc]
    decide
  · obtain ⟨entry, hentry, rfl⟩ := List.mem_map.mp hpart
    have hvalue : IsLine (escapeProperty entry.2) :=
      isLine_escape (by decide) (by decide) (by decide) (hvalues entry hentry)
    exact ((hnames _ (List.mem_map_of_mem hentry)).append (hvalue.cons (by decide))) c hc

/-- A written annotation takes one line if its values do. -/
theorem OneLine.isLine_written (h : OneLine a) (hseverity : IsLine a.severity)
    (hnames : ∀ name ∈ a.properties.map Prod.fst, IsLine name) : IsLine (written a) := by
  have hmark : IsLine (Text.ofString "::") := Text.isLine_ofString (by decide)
  have hmessage : IsLine (escapeMessage a.message) :=
    isLine_escape (by decide) (by decide) (by decide) h.message
  exact (((hmark.append hseverity).append (isLine_writtenProperties hnames h.values)).append
    hmark).append hmessage

/-! ### What is read from one line -/

/-- The parts of a text that an annotation is read from. -/
theorem exists_parts_of_parse? (h : parse? s = some a) :
    ∃ severity tail props rest message,
      Text.trimRight (· = .scalar '\r') s = "::" ++ (severity ++ tail) ∧ severity ≠ [] ∧
      (∀ c ∈ severity, isLetter c = true) ∧ splitMessage? tail = some (props, rest) ∧
      oneLine? rest = some message ∧
      a = { severity := Text.asciiLower severity
            message := unescapeMessage message
            properties := readProperties props } := by
  simp only [parse?, Option.bind_eq_bind, Option.bind_eq_some_iff] at h
  obtain ⟨body, hbody, h⟩ := h
  split at h
  · cases h
  · next hne =>
    simp only [Option.bind_eq_some_iff] at h
    obtain ⟨⟨props, rest⟩, hsplit, message, hmessage, heq⟩ := h
    refine ⟨body.takeWhile isLetter, body.dropWhile isLetter, props, rest, message, ?_, hne,
      fun c hc => List.mem_takeWhile_imp hc, hsplit, hmessage, (Option.some.inj heq).symm⟩
    rw [List.takeWhile_append_dropWhile]
    exact Text.after?_eq_some.mp hbody

theorem subset_of_splitMessage? (h : splitMessage? s = some (props, message)) :
    props ⊆ s ∧ message ⊆ s := by
  rcases splitMessage?_eq_some_iff.mp h with ⟨rfl, rfl⟩ | ⟨rfl, -⟩
  · exact ⟨List.nil_subset _, List.subset_append_right _ _⟩
  · have hall : props ++ Text.ofString "::" ++ message ⊆
        .scalar ' ' :: (props ++ Text.ofString "::" ++ message) := List.subset_cons_self _ _
    obtain ⟨hbefore, hmessage⟩ := List.append_subset.mp hall
    exact ⟨(List.append_subset.mp hbefore).1, hmessage⟩

theorem subset_of_oneLine? (h : oneLine? s = some message) : message ⊆ s := by
  obtain ⟨-, rfl | rfl⟩ := oneLine?_eq_some_iff.mp h
  · exact List.Subset.refl _
  · exact List.subset_append_left _ _

theorem coded_of_mem_readProperties (hprops : IsLine props) (h : entry ∈ readProperties props) :
    Coded entry.2 := by
  obtain ⟨part, hpart, hproperty⟩ := List.mem_filterMap.mp (Table.mem_of_mem_ofList h)
  obtain ⟨⟨name, value⟩, hcut, rfl⟩ := Option.map_eq_some_iff.mp hproperty
  have hpart : part <:+: props := Text.join_fields (.scalar ',') props ▸ Text.infix_join hpart
  have hvalue : value ⊆ part := by
    rw [Text.eq_of_cut?_eq_some hcut]
    exact List.subset_append_right _ _
  exact coded_unescape (by decide) fun c hc => hprops c (hpart.subset (hvalue hc))

/-- An annotation that is read from one line can be written on one. -/
theorem oneLine_of_parse? (hline : IsLine s) (h : parse? s = some a) : OneLine a := by
  obtain ⟨severity, tail, props, rest, message, hs, -, -, hsplit, hmessage, rfl⟩ :=
    exists_parts_of_parse? h
  obtain ⟨hprops, hrest⟩ := subset_of_splitMessage? hsplit
  have hsub : tail ⊆ s := by
    have htrim := (Text.trimRight_prefix (· = .scalar '\r') s).subset
    rw [hs] at htrim
    exact (List.append_subset.mp (List.append_subset.mp htrim).2).2
  constructor
  · exact coded_unescape (by decide) fun c hc =>
      hline c (hsub (hrest (subset_of_oneLine? hmessage hc)))
  · exact fun entry => coded_of_mem_readProperties fun c hc => hline c (hsub (hprops hc))

theorem parse?_of_not_infix (h : ¬ Text.ofString "::" <:+: s) : parse? s = none := by
  apply Option.eq_none_iff_forall_ne_some.mpr
  intro a ha
  obtain ⟨severity, tail, -, -, -, hs, -⟩ := exists_parts_of_parse? ha
  have hstart : Text.ofString "::" <+: Text.trimRight (· = .scalar '\r') s :=
    ⟨severity ++ tail, hs.symm⟩
  exact h (hstart.trans (Text.trimRight_prefix _ s)).isInfix

end Annotation

end Output

end LintReport
