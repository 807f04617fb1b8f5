import LintReport.Proofs.Output.Annotation

/-!
The line of an annotation in the words of its format, unit by unit and without the tables that the
reader works from. It is the same line as the one that the tables give, so whatever stands in its
values and in its message is read back: a message may begin with colons, and a value may hold what
looks like a code, a property or the start of the message.
-/
namespace LintReport.Output.Annotation

/-- A unit of a message in a line. -/
def messageUnit : CodePoint → Text
  | .scalar '%' => "%25"
  | .scalar '\r' => "%0D"
  | .scalar '\n' => "%0A"
  | c => [c]

/-- A unit of the value of a property in a line. -/
def valueUnit : CodePoint → Text
  | .scalar ':' => "%3A"
  | .scalar ',' => "%2C"
  | c => messageUnit c

/-- A property in a line. -/
def propertyPart (entry : Text × Text) : Text := entry.1 ++ "=" ++ entry.2.flatMap valueUnit

/-- The properties between commas and behind a blank, if there are any. -/
def propertyList (properties : Table Text) : Text :=
  if properties = [] then [] else .scalar ' ' :: Text.join "," (properties.map propertyPart)

/-- The line of an annotation, from the two colons at its start to the message at its end. -/
def line (severity : Text) (properties : Table Text) (message : Text) : Text :=
  "::" ++ severity ++ propertyList properties ++ "::" ++ message.flatMap messageUnit

/-! ### Units and their codes -/

theorem messageUnit_eq (c : CodePoint) : messageUnit c = escapeUnit messageCodes c := by
  unfold messageUnit
  split
  · decide
  · decide
  · decide
  · next hpercent hreturn hfeed =>
    have hnone : c ∉ messageCodes.map Prod.snd := by
      simp only [messageCodes, List.map_cons, List.map_nil, List.mem_cons, List.not_mem_nil,
        or_false, not_or]
      exact ⟨hreturn, hfeed, hpercent⟩
    rcases escapeUnit_cases messageCodes c with ⟨entry, hentry, rfl, -⟩ | ⟨-, hunit⟩
    · exact absurd (List.mem_map_of_mem hentry) hnone
    · exact hunit.symm

theorem escapeUnit_propertyCodes {c : CodePoint} (hcolon : c ≠ .scalar ':')
    (hcomma : c ≠ .scalar ',') : escapeUnit propertyCodes c = escapeUnit messageCodes c := by
  have hmiss : (.scalar ':' = c) = False ∧ (.scalar ',' = c) = False :=
    ⟨eq_false hcolon.symm, eq_false hcomma.symm⟩
  simp [escapeUnit, propertyCodes, messageCodes, List.find?_cons, hmiss]

theorem valueUnit_eq (c : CodePoint) : valueUnit c = escapeUnit propertyCodes c := by
  unfold valueUnit
  split
  · decide
  · decide
  · next hcolon hcomma => rw [escapeUnit_propertyCodes hcolon hcomma, messageUnit_eq]

/-- The line is the one that the tables of the reader give. -/
theorem line_eq_written (a : Annotation) : line a.severity a.properties a.message = written a := by
  have hmessage : a.message.flatMap messageUnit = escapeMessage a.message := by
    rw [funext messageUnit_eq, escapeMessage, escape]
  have hpart : propertyPart = writtenProperty := by
    funext entry
    rw [propertyPart, writtenProperty, funext valueUnit_eq, escapeProperty, escape,
      List.append_assoc]
    rfl
  have hlist : propertyList a.properties = writtenProperties a.properties := by
    rw [propertyList, hpart]
    split
    · next hnone =>
      rw [hnone]
      rfl
    · next hsome =>
      rw [writtenProperties_of_ne_nil hsome]
      rfl
  rw [line, written, hmessage, hlist]

/-! ### The way back -/

/-- The name of a property: none of the marks of a line is in it, and no blank at either end. -/
structure IsName (name : Text) : Prop where
  plain : .scalar '=' ∉ name ∧ .scalar ',' ∉ name ∧ .scalar ':' ∉ name
  head : ∀ c ∈ name.head?, c.isBlank = false
  last : ∀ c ∈ name.getLast?, c.isBlank = false

/-- The line of an annotation is read back as that annotation, with its severity in lower case. -/
theorem parse?_line {severity message : Text} {properties : Table Text} (hne : severity ≠ [])
    (hletters : ∀ c ∈ severity, isLetter c = true) (hdistinct : (properties.map Prod.fst).Nodup)
    (hnames : ∀ entry ∈ properties, IsName entry.1) :
    parse? (line severity properties message) =
      some { severity := Text.asciiLower severity, message, properties } := by
  have hname : ∀ name ∈ properties.map Prod.fst, IsName name := by
    intro name hmem
    obtain ⟨entry, hentry, rfl⟩ := List.mem_map.mp hmem
    exact hnames entry hentry
  have hwritable : Writable { severity, message, properties } := {
    severity_ne := hne
    letters := hletters
    distinct := hdistinct
    plain := fun name hmem => (hname name hmem).plain
    trimmed := fun name hmem => Text.trim_eq_self (hname name hmem).head (hname name hmem).last }
  have hline : line severity properties message = written { severity, message, properties } :=
    line_eq_written { severity, message, properties }
  rw [hline, parse?_written hwritable, lowered]

/-- A value with every mark of a line in it, an empty name, and a message that begins like the end
of its own line. -/
theorem parse?_line_marks :
    parse? (line "ErRor" [("a title", "x=1,y:2%0A\r\n::"), ("", "%253A")] "::%25\n\r: z") =
      some { severity := "error", message := "::%25\n\r: z",
             properties := [("a title", "x=1,y:2%0A\r\n::"), ("", "%253A")] } := by
  have hname (s : Text) (h : .scalar '=' ∉ s ∧ .scalar ',' ∉ s ∧ .scalar ':' ∉ s)
      (hends : (∀ c ∈ s.head?, c.isBlank = false) ∧ ∀ c ∈ s.getLast?, c.isBlank = false) :
      IsName s := ⟨h, hends.1, hends.2⟩
  refine (parse?_line (by decide) (by decide) (by decide) fun entry hentry => ?_).trans rfl
  rcases List.mem_cons.mp hentry with rfl | hentry
  · exact hname _ (by decide) (by decide)
  · rw [List.mem_singleton.mp hentry]
    exact hname _ (by decide) (by decide)

end LintReport.Output.Annotation
