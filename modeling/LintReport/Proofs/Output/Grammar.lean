import LintReport.Proofs.Output.Annotation

/-!
The grammar of annotations. A line is an annotation if it consists of two colons, a severity, maybe
a blank and properties without a colon, two colons again and a message on one line; returns behind
it and one line feed do not count. No line can be taken apart in two ways, and what is read from it
are its parts.
-/
namespace LintReport.Output.Annotation

variable {a : Annotation} {s part name value message rest : Text} {c : CodePoint}

/-! ### The parts of a line -/

/-- The parts of a line that is an annotation. -/
@[ext]
structure Parts where
  severity : Text
  properties : Option Text
  message : Text
  severity_ne : severity ≠ []
  letters : ∀ c ∈ severity, isLetter c = true
  no_colon : ∀ s ∈ properties, .scalar ':' ∉ s
  no_feed : .scalar '\n' ∉ message

namespace Parts

/-- What stands between the severity and the message. -/
def middle (p : Parts) : Text := (p.properties.elim [] (.scalar ' ' :: ·)) ++ "::"

/-- The line that has these parts. -/
def text (p : Parts) : Text := "::" ++ (p.severity ++ (p.middle ++ p.message))

end Parts

/-- The text without a line feed at its end. -/
def withoutFeed (s : Text) : Text :=
  if s.getLast? = some (.scalar '\n') then s.dropLast else s

/-- What counts of a line: it does without the returns at its end, and then without a line feed. -/
def counted (s : Text) : Text := withoutFeed (Text.trimRight (· = .scalar '\r') s)

/-! ### Names and values -/

/-- A part between commas that gives a name a value: the blanks around the name do not count, and
the value is all that stands behind the first equals sign. -/
def Assigns (part name value : Text) : Prop :=
  ∃ key raw : Text, part = key ++ .scalar '=' :: raw ∧ .scalar '=' ∉ key ∧
    name = key.trimBlanks ∧ value = unescapeProperty raw

/-- The value that a name has in the end, if later parts take the place of earlier ones. -/
def LastAssigned (parts : List Text) (name value : Text) : Prop :=
  ∃ before part after, parts = before ++ part :: after ∧ Assigns part name value ∧
    ∀ later ∈ after, ∀ other, ¬ Assigns later name other

theorem cut?_equals_iff {key raw : Text} :
    Text.cut? "=" part = some (key, raw) ↔ part = key ++ .scalar '=' :: raw ∧ .scalar '=' ∉ key := by
  have hequals : Text.ofString "=" = [.scalar '='] := rfl
  rw [hequals]
  constructor
  · intro h
    have hpart := Text.eq_of_cut?_eq_some h
    rw [List.append_assoc] at hpart
    exact ⟨hpart, mt (List.singleton_infix_iff _ _).mpr
      (Text.not_infix_of_cut? (List.cons_ne_nil _ _) h)⟩
  · rintro ⟨rfl, hkey⟩
    have hunbordered : Text.Unbordered [.scalar '='] := by decide
    have hcut := Text.cut?_append hunbordered (mt (List.singleton_infix_iff _ _).mp hkey) raw
    rwa [List.append_assoc] at hcut

theorem property?_eq_some_iff : property? part = some (name, value) ↔ Assigns part name value := by
  rw [property?, Option.map_eq_some_iff]
  constructor
  · rintro ⟨⟨key, raw⟩, hcut, heq⟩
    cases heq
    obtain ⟨hpart, hkey⟩ := cut?_equals_iff.mp hcut
    exact ⟨key, raw, hpart, hkey, rfl, rfl⟩
  · rintro ⟨key, raw, hpart, hkey, rfl, rfl⟩
    exact ⟨(key, raw), cut?_equals_iff.mpr ⟨hpart, hkey⟩, rfl⟩

/-- A name has the value that the last part gives it. -/
theorem get?_readProperties_iff :
    Table.get? name (readProperties s) = some value ↔
      LastAssigned (Text.fields (.scalar ',') s) name value := by
  rw [readProperties, Table.get?_ofList_eq_some_iff]
  have hnone (after : List Text) : name ∉ (after.filterMap property?).map Prod.fst ↔
      ∀ later ∈ after, ∀ other, ¬ Assigns later name other := by
    constructor
    · intro h later hlater other hassigns
      exact h (List.mem_map_of_mem (List.mem_filterMap.mpr
        ⟨later, hlater, property?_eq_some_iff.mpr hassigns⟩))
    · intro h hmem
      obtain ⟨⟨key, other⟩, hentry, rfl⟩ := List.mem_map.mp hmem
      obtain ⟨later, hlater, hproperty⟩ := List.mem_filterMap.mp hentry
      exact h later hlater other (property?_eq_some_iff.mp hproperty)
  constructor
  · rintro ⟨before, after, heq, hafter⟩
    obtain ⟨first, last, hparts, -, hlast⟩ := List.filterMap_eq_append_iff.mp heq
    obtain ⟨between, part, tail, rfl, -, hpart, rfl⟩ := List.filterMap_eq_cons_iff.mp hlast
    refine ⟨first ++ between, part, tail, ?_, property?_eq_some_iff.mp hpart, (hnone _).mp hafter⟩
    rw [hparts, List.append_assoc]
  · rintro ⟨before, part, after, hparts, hpart, hafter⟩
    refine ⟨before.filterMap property?, after.filterMap property?, ?_, (hnone _).mpr hafter⟩
    rw [hparts, List.filterMap_append,
      List.filterMap_cons_some (property?_eq_some_iff.mpr hpart)]

/-! ### Line feeds at the end -/

theorem withoutFeed_eq_iff (h : message.getLast? ≠ some (.scalar '\n')) :
    withoutFeed s = message ↔ s = message ∨ s = message ++ [.scalar '\n'] := by
  unfold withoutFeed
  split
  · next hlast =>
    have hs : s.dropLast ++ [.scalar '\n'] = s := List.dropLast_append_getLast? _ hlast
    constructor
    · rintro rfl
      exact Or.inr hs.symm
    · rintro (rfl | rfl)
      · exact absurd hlast h
      · exact List.dropLast_concat
  · next hlast =>
    constructor
    · exact Or.inl
    · rintro (rfl | rfl)
      · rfl
      · exact absurd List.getLast?_concat hlast

/-! ### The line and its parts -/

namespace Parts

/-- What is read from the parts of a line. -/
def annotation (p : Parts) : Annotation where
  severity := Text.asciiLower p.severity
  message := unescapeMessage p.message
  properties := readProperties (p.properties.getD [])

theorem splitMessage?_middle (p : Parts) (rest : Text) :
    splitMessage? (p.middle ++ rest) = some (p.properties.getD [], rest) := by
  apply splitMessage?_eq_some_iff.mpr
  unfold middle
  cases hprops : p.properties with
  | none => exact Or.inl ⟨rfl, rfl⟩
  | some props => exact Or.inr ⟨by simp, p.no_colon props hprops⟩

/-- What stands between a severity and a message comes from properties or from none. -/
theorem exists_of_splitMessage? {severity tail props rest : Text} (hne : severity ≠ [])
    (hletters : ∀ c ∈ severity, isLetter c = true) (hsplit : splitMessage? tail = some (props, rest))
    (hfeed : .scalar '\n' ∉ message) :
    ∃ p : Parts, tail = p.middle ++ rest ∧ p.severity = severity ∧ p.message = message ∧
      p.properties.getD [] = props := by
  rcases splitMessage?_eq_some_iff.mp hsplit with ⟨rfl, rfl⟩ | ⟨rfl, hprops⟩
  · exact ⟨⟨severity, none, message, hne, hletters, nofun, hfeed⟩, rfl, rfl, rfl, rfl⟩
  · refine ⟨⟨severity, some props, message, hne, hletters, ?_, hfeed⟩, ?_, rfl, rfl, rfl⟩
    · rintro s ⟨⟩
      exact hprops
    · simp [middle]

theorem getLast?_text_ne (p : Parts) : p.text.getLast? ≠ some (.scalar '\n') := by
  intro hlast
  have htext : p.text = Text.ofString "::" ++ (p.severity ++
      p.properties.elim [] (.scalar ' ' :: ·)) ++ (Text.ofString "::" ++ p.message) := by
    simp only [text, middle, List.append_assoc]
  have hne : Text.ofString "::" ++ p.message ≠ [] := List.cons_ne_nil _ _
  rw [htext, List.getLast?_append_of_ne_nil _ hne] at hlast
  rcases List.mem_append.mp (List.mem_of_getLast? hlast) with hmem | hmem
  · exact absurd hmem (by decide)
  · exact p.no_feed hmem

theorem counted_eq_text_iff {p : Parts} : counted s = p.text ↔
    Text.trimRight (· = .scalar '\r') s = p.text ∨
      Text.trimRight (· = .scalar '\r') s = p.text ++ [.scalar '\n'] :=
  withoutFeed_eq_iff p.getLast?_text_ne

theorem parse?_of_counted_eq {p : Parts} (h : counted s = p.text) :
    parse? s = some p.annotation := by
  have hread (rest : Text) (hrest : rest = p.message ∨ rest = p.message ++ [.scalar '\n'])
      (hs : Text.trimRight (· = .scalar '\r') s = "::" ++ (p.severity ++ (p.middle ++ rest))) :
      parse? s = some p.annotation :=
    parse?_of_splitMessage? hs p.severity_ne p.letters (p.splitMessage?_middle rest)
      (oneLine?_eq_some_iff.mpr ⟨p.no_feed, hrest⟩)
  rcases counted_eq_text_iff.mp h with hs | hs
  · exact hread p.message (Or.inl rfl) hs
  · refine hread _ (Or.inr rfl) ?_
    rw [hs, text]
    simp only [List.append_assoc]

theorem exists_of_parse? (h : parse? s = some a) :
    ∃ p : Parts, counted s = p.text ∧ a = p.annotation := by
  obtain ⟨severity, tail, props, rest, message, hs, hne, hletters, hsplit, hmessage, rfl⟩ :=
    exists_parts_of_parse? h
  obtain ⟨hfeed, hrest⟩ := oneLine?_eq_some_iff.mp hmessage
  obtain ⟨p, rfl, rfl, rfl, rfl⟩ := exists_of_splitMessage? hne hletters hsplit hfeed
  refine ⟨p, counted_eq_text_iff.mpr ?_, rfl⟩
  rcases hrest with rfl | rfl
  · exact Or.inl hs
  · refine Or.inr (hs.trans ?_)
    simp only [text, List.append_assoc]

/-- A line can be taken apart in one way only. -/
theorem eq_of_text_eq {p q : Parts} (h : p.text = q.text) : p = q := by
  have hbody : p.severity ++ (p.middle ++ p.message) = q.severity ++ (q.middle ++ q.message) :=
    List.append_cancel_left h
  have hp := spanLetters_of_splitMessage? p.letters (p.splitMessage?_middle p.message)
  have hq := spanLetters_of_splitMessage? q.letters (q.splitMessage?_middle q.message)
  have hseverity : p.severity = q.severity := by rw [← hp.1, hbody, hq.1]
  have htail : p.middle ++ p.message = q.middle ++ q.message := by rw [← hp.2, hbody, hq.2]
  have hsplit := p.splitMessage?_middle p.message
  rw [htail, q.splitMessage?_middle] at hsplit
  obtain ⟨hprops, hmessage⟩ := Prod.mk.inj (Option.some.inj hsplit)
  rw [hmessage] at htail
  have hmiddle : p.middle = q.middle := List.append_cancel_right htail
  refine Parts.ext hseverity ?_ hmessage.symm
  unfold middle at hmiddle
  cases hp : p.properties with
  | none =>
    cases hq : q.properties with
    | none => rfl
    | some props => simp [hp, hq, Text.ofString] at hmiddle
  | some props =>
    cases hq : q.properties with
    | none => simp [hp, hq, Text.ofString] at hmiddle
    | some props' => rw [hp, hq] at hprops; exact congrArg some hprops.symm

end Parts

/-- Exactly the lines with the parts of an annotation are read, no line has two sets of parts, and
the parts say what is read. -/
theorem parse?_accepts (s : Text) :
    ((parse? s).isSome ↔ ∃ p : Parts, counted s = p.text) ∧
      (∀ p q : Parts, p.text = q.text → p = q) ∧
      ∀ p : Parts, counted s = p.text → ∃ a, parse? s = some a ∧
        a.severity = Text.asciiLower p.severity ∧ a.message = unescapeMessage p.message ∧
        (a.properties.map Prod.fst).Nodup ∧
        ∀ name value, Table.get? name a.properties = some value ↔
          LastAssigned (Text.fields (.scalar ',') (p.properties.getD [])) name value := by
  refine ⟨⟨fun h => ?_, ?_⟩, fun p q => Parts.eq_of_text_eq, fun p hp => ?_⟩
  · obtain ⟨a, ha⟩ := Option.isSome_iff_exists.mp h
    obtain ⟨p, hp, -⟩ := Parts.exists_of_parse? ha
    exact ⟨p, hp⟩
  · rintro ⟨p, hp⟩
    rw [Parts.parse?_of_counted_eq hp, Option.isSome_some]
  · exact ⟨p.annotation, Parts.parse?_of_counted_eq hp, rfl, rfl, Table.nodup_names_ofList _,
      fun name value => get?_readProperties_iff⟩

/-- A line that gives one name two values and has a part without a value between them. -/
def repeatedName : Parts where
  severity := "Error"
  properties := some "a=1,b, a =%3A=2"
  message := "x::y"
  severity_ne := by decide
  letters := by decide
  no_colon := by decide
  no_feed := by decide

theorem parse?_accepts_repeatedName :
    counted (repeatedName.text ++ "\n\r\r") = repeatedName.text ∧
      ∃ a, parse? (repeatedName.text ++ "\n\r\r") = some a ∧ a.severity = "error" ∧
        a.message = "x::y" ∧ Table.get? "a" a.properties = some ":=2" := by
  have hcounted : counted (repeatedName.text ++ "\n\r\r") = repeatedName.text := by decide
  obtain ⟨a, ha, hseverity, hmessage, -, hget⟩ := (parse?_accepts _).2.2 repeatedName hcounted
  have hlast : LastAssigned (Text.fields (.scalar ',') (repeatedName.properties.getD [])) "a" ":=2" :=
    ⟨["a=1", "b"], " a =%3A=2", [], by decide, ⟨" a ", "%3A=2", by decide⟩, nofun⟩
  exact ⟨hcounted, a, ha, hseverity.trans (by decide), hmessage.trans (by decide),
    (hget _ _).mpr hlast⟩

end LintReport.Output.Annotation
