import LintReport.Proofs.Finding.Tolerated

/-!
Applied rules. Every rule that a change applies is an issue of its own, at the line that the change
is most likely about. Only the maps, the entries and the lists of changes are looked at before they
are used. In a change itself a value of a wrong kind ends in a fault or passes for its elements, and
a number with more digits than may be read or written is a fault as well. The first fault ends the
run.
-/
namespace LintReport.Ecs

open Output (firstHeader? estimatedLine contextLines)

/-! ### Changes -/

/-- A text, or a blank value in its place. -/
def isText : Json → Bool
  | .string _ => true
  | v => v.isBlank

/-- A value with elements, or a blank one in its place. -/
def hasElements : Json → Bool
  | .array _ | .string _ | .object _ => true
  | v => v.isBlank

/-- What is searched for the line of a change. -/
def searched (diff : Json) : Text :=
  match diff.member "diff" with
  | .string s => s
  | _ => []

/-- The rules of a change: the items of a list, but just as well the units of a text and the names
in an object. -/
def rules (diff : Json) : List Json :=
  match diff.member "applied_checkers" with
  | .array items => items
  | .string s => s.map fun c => .string [c]
  | .object members => members.map fun m => .string m.1
  | _ => []

/-- The line of a change: its first hunk and the lines of context, or the first line. -/
def lineOf (diff : Json) : Nat :=
  (firstHeader? (searched diff)).elim 1 fun digits => ofDigits digits + contextLines

/-- The issue of a rule. -/
def ruleIssue (workingDir file : Text) (line : Nat) (rule : Json) : Issue where
  checkName := "Ecs." ++ ruleName rule
  description := "ECS: " ++ ruleName rule
  severity := .minor
  location :=
    { path := relativePath workingDir file, fullPath := file, position := { line := line } }
  fingerprint := Digest.sha1 ((Issue.fingerprintBase (relativePath workingDir file)
    { line := line } ("ECS: " ++ ruleName rule)).flatMap CodePoint.utf8)

/-- The issues of a change, one a rule, all at its line. -/
def changeIssues (workingDir : Text) (change : Text × Json) : List Issue :=
  (rules change.2).map (ruleIssue workingDir change.1 (lineOf change.2))

/-- A change with parts that can be used: a text, in which the number of the first hunk is not too
long to be read, and rules that can be gone through. -/
structure Usable (diff : Json) : Prop where
  text : isText (diff.member "diff") = true
  header : ∀ digits, firstHeader? (searched diff) = some digits → digits.length ≤ maxDigits
  elements : hasElements (diff.member "applied_checkers") = true

/-- A change that becomes its issues. Its parts can be used, and if there are any rules, the line
can be written and no half of a surrogate pair stands in the path and in the names of the rules. -/
structure Sound (workingDir file : Text) (diff : Json) : Prop extends Usable diff where
  line : rules diff ≠ [] → lineOf diff < Nat.pow 10 maxDigits
  whole : ∀ rule ∈ rules diff, ∀ c ∈ relativePath workingDir file ++ ruleName rule,
    c.isSurrogate = false

/-- The fault of any other change, which is that of the first of these conditions that fails. -/
inductive FaultOf (workingDir file : Text) (diff : Json) : Fault → Prop
  | text (h : isText (diff.member "diff") = false) :
      FaultOf workingDir file diff (.notSearchable (diff.member "diff"))
  | header {digits : List Nat} (htext : isText (diff.member "diff") = true)
      (h : firstHeader? (searched diff) = some digits) (hlong : maxDigits < digits.length) :
      FaultOf workingDir file diff (.oversizedNumber digits.length)
  | elements (htext : isText (diff.member "diff") = true)
      (hheader : ∀ digits, firstHeader? (searched diff) = some digits →
        digits.length ≤ maxDigits)
      (h : hasElements (diff.member "applied_checkers") = false) :
      FaultOf workingDir file diff (.notIterable (diff.member "applied_checkers"))
  | line (hrules : rules diff ≠ []) (h : Nat.pow 10 maxDigits ≤ lineOf diff) :
      FaultOf workingDir file diff .unwritableNumber
  | whole {rule : Json} {unencodable : Unencodable} (hrule : rule ∈ rules diff)
      (h : ((finding file (lineOf diff) rule).base workingDir).unencodable? 0 =
        some unencodable) :
      FaultOf workingDir file diff (.unencodable unencodable)

variable {workingDir file : Text} {diff : Json}

theorem diffText_eq (diff : Json) :
    diffText diff = if isText (diff.member "diff") then .ok (searched diff)
      else .error (.notSearchable (diff.member "diff")) := by
  unfold diffText searched
  cases diff.member "diff" with
  | string s =>
    cases s with
    | nil => rfl
    | cons c s => rfl
  | _ => rfl

theorem checkers_eq (diff : Json) :
    checkers diff = if hasElements (diff.member "applied_checkers") then .ok (rules diff)
      else .error (.notIterable (diff.member "applied_checkers")) := by
  unfold checkers rules
  cases diff.member "applied_checkers" with
  | string s =>
    cases s with
    | nil => rfl
    | cons c s => rfl
  | array items =>
    cases items with
    | nil => rfl
    | cons item items => rfl
  | object members =>
    cases members with
    | nil => rfl
    | cons m members => rfl
  | _ => rfl

theorem estimatedLine_of_short
    (h : ∀ digits, firstHeader? (searched diff) = some digits → digits.length ≤ maxDigits) :
    estimatedLine (searched diff) = .ok (lineOf diff) := by
  unfold estimatedLine lineOf
  cases hheader : firstHeader? (searched diff) with
  | none => rfl
  | some digits => exact if_pos (h digits hheader)

theorem estimatedLine_of_long {digits : List Nat} (h : firstHeader? (searched diff) = some digits)
    (hlong : maxDigits < digits.length) :
    estimatedLine (searched diff) = .error (.oversizedNumber digits.length) := by
  unfold estimatedLine
  rw [h]
  exact if_neg (by omega)

/-! ### Issues of rules -/

theorem place_finding (file : Text) (line : Nat) (rule : Json) :
    (finding file line rule).place = { line := line } := by
  have husable : Position.usable? (.int line) = some line := by
    simp [Position.usable?, Option.filter]
  unfold Finding.place
  dsimp only [finding]
  rw [husable]
  rfl

theorem path_finding (file : Text) (line : Nat) (rule : Json) :
    (finding file line rule).path.shownOrNothing = file := by
  change (Json.string file).shownOrNothing = file
  cases file with
  | nil => rfl
  | cons c file => rfl

theorem tolerated_finding (workingDir file : Text) (line : Nat) (rule : Json) :
    (finding file line rule).tolerated workingDir = ruleIssue workingDir file line rule := by
  have hseverity : Severity.ofJson (finding file line rule).severity = .minor := by
    change Severity.ofJson (.string "minor") = .minor
    decide
  have hname : (if (finding file line rule).rule = [] then (finding file line rule).description
      else (finding file line rule).rule) = "Ecs." ++ ruleName rule :=
    if_neg (List.cons_ne_nil _ _)
  unfold Finding.tolerated Finding.base
  rw [place_finding, path_finding, hname, hseverity]
  rfl

/-- The prefix of a description adds nothing to a fingerprint that cannot be encoded. -/
theorem unencodable?_finding {line : Nat} {rule : Json} :
    ((finding file line rule).base workingDir).unencodable? 0 = none ↔
      ∀ c ∈ relativePath workingDir file ++ ruleName rule, c.isSurrogate = false := by
  have hprefix : ∀ c ∈ Text.ofString "ECS: ", c.isSurrogate = false := by decide
  rw [Finding.unencodable?_base, path_finding]
  change (∀ c ∈ relativePath workingDir file ++ ("ECS: " ++ ruleName rule), _) ↔ _
  simp only [List.forall_mem_append]
  constructor
  · intro h
    exact ⟨h.1, h.2.2⟩
  · intro h
    exact ⟨h.1, hprefix, h.2⟩

theorem toIssue_of_lt {line : Nat} (h : line < Nat.pow 10 maxDigits) (rule : Json) :
    (finding file line rule).toIssue workingDir =
      match ((finding file line rule).base workingDir).unencodable? 0 with
      | none => .ok (ruleIssue workingDir file line rule)
      | some unencodable => .error (.unencodable unencodable) := by
  have hbounded : ∀ v ∈ (finding file line rule).parts, v.Bounded :=
    Finding.forall_parts.mpr ⟨.int h, .null, .null, .null⟩
  rw [← tolerated_finding]
  exact Finding.toIssue_of_finite hbounded rfl

theorem toIssue_of_le {line : Nat} (h : Nat.pow 10 maxDigits ≤ line) (rule : Json) :
    (finding file line rule).toIssue workingDir = .error .unwritableNumber := by
  have hposition : (finding file line rule).position = .ok { line := line } := by
    rw [Finding.position_eq, place_finding]
    rfl
  have hwritable : Position.isWritable { line := line } = false := by
    refine List.all_eq_false.mpr ⟨some line, List.mem_cons_self, ?_⟩
    change ¬ decide (line < Nat.pow 10 maxDigits) = true
    rw [decide_eq_true_eq]
    omega
  rw [Finding.toIssue, hposition]
  simp only [bind, Except.bind, Issue.sealed, if_true, Issue.fingerprintOf, hwritable]
  rfl

/-- A rule of a usable change either becomes its issue or has the fault of the change. -/
theorem FaultOf.of_toIssue {rule : Json} {fault : Fault} (hrule : rule ∈ rules diff)
    (h : (finding file (lineOf diff) rule).toIssue workingDir = .error fault) :
    FaultOf workingDir file diff fault := by
  by_cases hline : lineOf diff < Nat.pow 10 maxDigits
  · rw [toIssue_of_lt hline] at h
    split at h
    · cases h
    · next unencodable hbase =>
      cases h
      exact .whole hrule hbase
  · rw [toIssue_of_le (by omega)] at h
    cases h
    exact .line (List.ne_nil_of_mem hrule) (by omega)

/-! ### Issues of changes -/

theorem diffIssues_eq (workingDir file : Text) (diff : Json) :
    diffIssues workingDir (file, diff) = diffText diff >>= fun text => estimatedLine text >>=
      fun line => checkers diff >>= fun rules =>
        rules.mapM fun rule => (finding file line rule).toIssue workingDir := rfl

theorem Usable.diffIssues_eq (h : Usable diff) :
    diffIssues workingDir (file, diff) =
      (rules diff).mapM fun rule => (finding file (lineOf diff) rule).toIssue workingDir := by
  have htext : diffText diff = .ok (searched diff) := by rw [diffText_eq, if_pos h.text]
  have hrules : checkers diff = .ok (rules diff) := by rw [checkers_eq, if_pos h.elements]
  rw [Ecs.diffIssues_eq, htext, hrules]
  change (estimatedLine (searched diff) >>= _) = _
  rw [estimatedLine_of_short h.header]
  rfl

/-- A change whose parts cannot be used ends the run, whatever its rules are. -/
theorem exists_faultOf_of_not_usable (h : ¬ Usable diff) :
    ∃ fault, diffIssues workingDir (file, diff) = .error fault ∧
      FaultOf workingDir file diff fault := by
  rw [diffIssues_eq, diffText_eq]
  by_cases htext : isText (diff.member "diff") = true
  · rw [if_pos htext]
    change ∃ fault, (estimatedLine (searched diff) >>= _) = _ ∧ _
    by_cases hheader : ∀ digits, firstHeader? (searched diff) = some digits →
        digits.length ≤ maxDigits
    · have helements : ¬ hasElements (diff.member "applied_checkers") = true :=
        fun helements => h ⟨htext, hheader, helements⟩
      rw [estimatedLine_of_short hheader]
      change ∃ fault, (checkers diff >>= _) = _ ∧ _
      rw [checkers_eq, if_neg helements]
      exact ⟨_, rfl, .elements htext hheader (by simpa using helements)⟩
    · simp only [not_forall, not_le] at hheader
      obtain ⟨digits, hdigits, hlong⟩ := hheader
      rw [estimatedLine_of_long hdigits hlong]
      exact ⟨_, rfl, .header htext hdigits hlong⟩
  · rw [if_neg htext]
    exact ⟨_, rfl, .text (by simpa using htext)⟩

theorem Sound.diffIssues_eq (h : Sound workingDir file diff) :
    diffIssues workingDir (file, diff) = .ok (changeIssues workingDir (file, diff)) := by
  rw [h.toUsable.diffIssues_eq]
  refine mapM_of_forall fun rule hrule => ?_
  rw [toIssue_of_lt (h.line (List.ne_nil_of_mem hrule)),
    unencodable?_finding.mpr (h.whole rule hrule)]

theorem exists_error_of_usable (husable : Usable diff) (h : ¬ Sound workingDir file diff) :
    ∃ rule ∈ rules diff, ∃ fault,
      (finding file (lineOf diff) rule).toIssue workingDir = .error fault := by
  -- if all rules became issues, nothing would be left that makes the change unsound
  by_contra hnone
  have hok : ∀ rule ∈ rules diff, lineOf diff < Nat.pow 10 maxDigits ∧
      ∀ c ∈ relativePath workingDir file ++ ruleName rule, c.isSurrogate = false := by
    intro rule hrule
    by_cases hline : lineOf diff < Nat.pow 10 maxDigits
    · cases hbase : ((finding file (lineOf diff) rule).base workingDir).unencodable? 0 with
      | none => exact ⟨hline, unencodable?_finding.mp hbase⟩
      | some unencodable =>
        refine absurd ⟨rule, hrule, .unencodable unencodable, ?_⟩ hnone
        rw [toIssue_of_lt hline, hbase]
    · exact absurd ⟨rule, hrule, _, toIssue_of_le (by omega) rule⟩ hnone
  refine h ⟨husable, fun hrules => ?_, fun rule hrule => (hok rule hrule).2⟩
  obtain ⟨rule, hrule⟩ := List.exists_mem_of_ne_nil _ hrules
  exact (hok rule hrule).1

theorem exists_faultOf (h : ¬ Sound workingDir file diff) :
    ∃ fault, diffIssues workingDir (file, diff) = .error fault ∧
      FaultOf workingDir file diff fault := by
  by_cases husable : Usable diff
  · obtain ⟨rule, hrule, fault, hfault, hmap⟩ :=
      mapM_eq_error_of_mem (exists_error_of_usable husable h)
    exact ⟨fault, husable.diffIssues_eq.trans hmap, .of_toIssue hrule hfault⟩
  · exact exists_faultOf_of_not_usable husable

/-! ### Outcomes -/

/-- Every rule that is applied is an issue, in the order of the document, unless a change cannot be
used or its issues cannot be written: then the first such change ends the run in its fault. -/
theorem outcome_changes (workingDir output : Text) :
    (decode output).Decodes (Output.document? (Tool.ecs.documentText output)) Tool.ecs.fits
      (Json.byFile "diffs") ∧
    ((∀ change ∈ (decode output).items, Sound workingDir change.1 change.2) →
      outcome workingDir output =
        .ok (if (decode output).intact then
          .ok ((decode output).items.flatMap (changeIssues workingDir)) else .failed output)) ∧
    ∀ before change after, (decode output).items = before ++ change :: after →
      (∀ c ∈ before, Sound workingDir c.1 c.2) → ¬ Sound workingDir change.1 change.2 →
      ∃ fault, outcome workingDir output = .error fault ∧
        FaultOf workingDir change.1 change.2 fault := by
  refine ⟨Decoded.decodes_ofFileMap _ _, ?_, ?_⟩
  · intro h
    unfold outcome Decoded.outcome
    rw [mapM_of_forall fun change hchange => (h change hchange).diffIssues_eq, List.flatMap_def]
    rfl
  · intro before change after hitems hbefore hchange
    obtain ⟨fault, hfault, hof⟩ := exists_faultOf hchange
    refine ⟨fault, ?_, hof⟩
    unfold outcome Decoded.outcome
    rw [hitems, mapM_of_first_error (fun c hc => (hbefore c hc).diffIssues_eq) hfault]
    rfl

/-- A change of a file that applies rules and shows no text. -/
def applying (rules : Json) : Text × Json := ("a", .object [("applied_checkers", rules)])

/-- The output for such a change, in which the rules are spelled out. -/
def outputApplying (rules : List Char) : Text :=
  Text.ofChars (['{', '"', 'f', 'i', 'l', 'e', 's', '"', ':', '{', '"', 'a', '"', ':', '{', '"',
    'd', 'i', 'f', 'f', 's', '"', ':', '[', '{', '"', 'a', 'p', 'p', 'l', 'i', 'e', 'd', '_',
    'c', 'h', 'e', 'c', 'k', 'e', 'r', 's', '"', ':'] ++ rules ++
    ['}', ']', '}', '}', '}'])

/-- A rule in a list is an issue, and a number in the place of the list ends the run. -/
theorem outcome_changes_number :
    (decode (outputApplying ['[', '"', 'b', '"', ']'])).items =
        [applying (.array [.string "b"])] ∧
      (∃ issue, outcome [.scalar '/'] (outputApplying ['[', '"', 'b', '"', ']']) =
          .ok (.ok [issue]) ∧
        issue.severity = .minor ∧ issue.location.position = { line := 1 }) ∧
      (decode (outputApplying ['5'])).items = [applying (.int 5)] ∧
      outcome [.scalar '/'] (outputApplying ['5']) = .error (.notIterable (.int 5)) := by
  have hlisted : (decode (outputApplying ['[', '"', 'b', '"', ']'])).items =
    [applying (.array [.string "b"])] := rfl
  have hnumber : (decode (outputApplying ['5'])).items = [applying (.int 5)] := rfl
  have husable : Usable (applying (.array [.string "b"])).2 := ⟨rfl, nofun, rfl⟩
  have hsound : Sound [.scalar '/'] "a" (applying (.array [.string "b"])).2 :=
    ⟨husable, fun _ => lt_pow_maxDigits (by decide), List.forall_mem_singleton.mpr (by decide)⟩
  have hunsound : ¬ Sound [.scalar '/'] "a" (applying (.int 5)).2 := fun h => nomatch h.elements
  have hissues := (outcome_changes [.scalar '/'] (outputApplying ['[', '"', 'b', '"', ']'])).2.1
    (by rw [hlisted]; exact List.forall_mem_singleton.mpr hsound)
  obtain ⟨fault, hrun, hfault⟩ := (outcome_changes [.scalar '/'] (outputApplying ['5'])).2.2
    [] _ [] hnumber nofun hunsound
  have hfault : fault = .notIterable (.int 5) := by
    cases hfault with
    | text h => cases h
    | header _ h => cases h
    | elements => rfl
    | line h => exact absurd rfl h
    | whole h => cases h
  exact ⟨hlisted, ⟨_, hissues, rfl, rfl⟩, hnumber, hfault ▸ hrun⟩

end LintReport.Ecs
