import LintReport.Proofs.Output.RoundTrip

/-!
Codes in the words of their format. To replace them one code after the other is to read the text
once, from left to right: three units that are a code become the unit it stands for, and all else is
copied, wherever percent signs overlap. So whatever is written with codes is read back.
-/
namespace LintReport.Output.Annotation

/-- The unit that three units of a message stand for, if they are a code. -/
def messageCode? : CodePoint → CodePoint → CodePoint → Option CodePoint
  | .scalar '%', .scalar '0', .scalar 'D' => some (.scalar '\r')
  | .scalar '%', .scalar '0', .scalar 'A' => some (.scalar '\n')
  | .scalar '%', .scalar '2', .scalar '5' => some (.scalar '%')
  | _, _, _ => none

/-- The unit that three units of the value of a property stand for, if they are a code. -/
def valueCode? : CodePoint → CodePoint → CodePoint → Option CodePoint
  | .scalar '%', .scalar '3', .scalar 'A' => some (.scalar ':')
  | .scalar '%', .scalar '2', .scalar 'C' => some (.scalar ',')
  | a, b, c => messageCode? a b c

/-- The text read once from left to right, with every code replaced and all else copied. -/
def onePass (code? : CodePoint → CodePoint → CodePoint → Option CodePoint) : Text → Text
  | a :: b :: c :: s =>
    match code? a b c with
    | some x => x :: onePass code? s
    | none => a :: onePass code? (b :: c :: s)
  | s => s

variable {codes : List (Text × CodePoint)}
  {code? : CodePoint → CodePoint → CodePoint → Option CodePoint} {a b c x : CodePoint} {s : Text}

/-! ### Tables -/

theorem codeAt?_eq_none_of_length (h : IsCodeTable codes) (hs : s.length < 3) :
    codeAt? codes s = none := by
  apply List.find?_eq_none.mpr
  intro entry hentry hbegins
  have hle := (Text.beginsWith_iff.mp hbegins).length_le
  rw [h.length entry hentry] at hle
  omega

theorem decode_of_length (h : IsCodeTable codes) (hs : s.length < 3) : decode codes s = s := by
  induction s with
  | nil => rfl
  | cons c s ih =>
    rw [decode_of_codeAt?_eq_none (codeAt?_eq_none_of_length h hs),
      ih (Nat.lt_of_succ_lt hs)]

theorem codeAt?_eq_none_of_not_mem (h : IsCodeTable codes) (hnone : ∀ x, ([a, b, c], x) ∉ codes)
    (s : Text) : codeAt? codes (a :: b :: c :: s) = none := by
  apply List.find?_eq_none.mpr
  intro entry hentry hbegins
  have hcode : entry.1 = [a, b, c] :=
    (List.prefix_of_prefix_length_le (Text.beginsWith_iff.mp hbegins)
      (List.prefix_append [a, b, c] s) (h.length entry hentry).le).eq_of_length
        (h.length entry hentry)
  exact hnone entry.2 (hcode ▸ hentry)

/-- The pass that a table gives is the one of the codes in it. -/
theorem onePass_eq_decode (h : IsCodeTable codes)
    (hcode : ∀ a b c x, code? a b c = some x ↔ ([a, b, c], x) ∈ codes) (s : Text) :
    onePass code? s = decode codes s := by
  fun_induction onePass code? s with
  | case1 a b c s x hx ih =>
    have hat := codeAt?_code h ((hcode a b c x).mp hx) s
    rw [ih]
    exact (decode_of_codeAt?_eq_some hat).symm
  | case2 a b c s hnone ih =>
    have hmem : ∀ x, ([a, b, c], x) ∉ codes := by
      intro x hx
      rw [(hcode a b c x).mpr hx] at hnone
      cases hnone
    rw [ih, decode_of_codeAt?_eq_none (codeAt?_eq_none_of_not_mem h hmem s)]
  | case3 s hshort =>
    have hs : s.length < 3 := by
      rcases s with - | ⟨a, - | ⟨b, - | ⟨c, s⟩⟩⟩
      · exact Nat.zero_lt_succ 2
      · exact Nat.one_lt_succ_succ 1
      · exact Nat.lt_succ_self 2
      · exact absurd rfl (hshort a b c s)
    exact (decode_of_length h hs).symm

/-! ### The codes of the format -/

theorem messageCode?_eq_some_iff (a b c x : CodePoint) :
    messageCode? a b c = some x ↔ ([a, b, c], x) ∈ messageCodes := by
  have hcodes : messageCodes = [([.scalar '%', .scalar '0', .scalar 'D'], .scalar '\r'),
      ([.scalar '%', .scalar '0', .scalar 'A'], .scalar '\n'),
      ([.scalar '%', .scalar '2', .scalar '5'], .scalar '%')] := rfl
  rw [hcodes]
  unfold messageCode?
  split
  · simp [eq_comm]
  · simp [eq_comm]
  · simp [eq_comm]
  · simp_all

theorem mem_propertyCodes {entry : Text × CodePoint} :
    entry ∈ propertyCodes ↔ entry = (Text.ofString "%3A", .scalar ':') ∨
      entry = (Text.ofString "%2C", .scalar ',') ∨ entry ∈ messageCodes := by
  simp only [propertyCodes, messageCodes, List.mem_cons, List.not_mem_nil, or_false]
  grind

theorem valueCode?_eq_some_iff (a b c x : CodePoint) :
    valueCode? a b c = some x ↔ ([a, b, c], x) ∈ propertyCodes := by
  have hcolon : Text.ofString "%3A" = [.scalar '%', .scalar '3', .scalar 'A'] := rfl
  have hcomma : Text.ofString "%2C" = [.scalar '%', .scalar '2', .scalar 'C'] := rfl
  rw [mem_propertyCodes, ← messageCode?_eq_some_iff, hcolon, hcomma]
  unfold valueCode?
  split
  · simp [messageCode?, eq_comm]
  · simp [messageCode?, eq_comm]
  · simp only [Prod.mk.injEq, List.cons.injEq, and_true]
    grind

/-- Codes are replaced in one pass, and so every text is read back from the codes that its units
are written with. -/
theorem unescape_eq_onePass (s : Text) :
    unescapeProperty s = onePass valueCode? s ∧ unescapeMessage s = onePass messageCode? s ∧
      unescapeProperty (s.flatMap valueUnit) = s ∧ unescapeMessage (s.flatMap messageUnit) = s := by
  have hproperty := isCodeTable_propertyCodes
  have hmessage := isCodeTable_messageCodes
  have hvalues : s.flatMap valueUnit = escapeProperty s := by
    rw [funext valueUnit_eq, escapeProperty, escape]
  have hmessages : s.flatMap messageUnit = escapeMessage s := by
    rw [funext messageUnit_eq, escapeMessage, escape]
  refine ⟨?_, ?_, ?_, ?_⟩
  · rw [unescapeProperty, unescape_eq_decode hproperty.isCode hproperty.ordered,
      onePass_eq_decode hproperty valueCode?_eq_some_iff]
  · rw [unescapeMessage, unescape_eq_decode hmessage.isCode hmessage.ordered,
      onePass_eq_decode hmessage messageCode?_eq_some_iff]
  · rw [hvalues, unescapeProperty_escapeProperty]
  · rw [hmessages, unescapeMessage_escapeMessage]

/-- Percent signs overlap here, and one code brings forth what looks like another. -/
example : unescapeProperty "%%253A%2" = "%%3A%2" := rfl

end LintReport.Output.Annotation
