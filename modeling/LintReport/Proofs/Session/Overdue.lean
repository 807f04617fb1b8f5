import LintReport.Proofs.Session.Interrupted
import LintReport.Proofs.Session.Kept

/-!
Commands whose time is up. The output of a process that ended by itself is decoded with its newlines
made alike, and that of a process whose time was up is decoded as it came. Both are split into
lines, to which all newlines are alike, so all that was printed is there in both cases, and a
message follows it when the time was up.
-/
namespace LintReport

open Text (joinLines lines)

namespace Command

/-- What a process printed, as the output of a command has it. -/
def printedText (printed : Bytes) : Text := joinLines (lines (Utf8.decodeLossy printed))

/-- Newlines that are made alike before the text is split into lines leave no trace. -/
theorem completed_eq (p : Process) : completed p = ⟨p.exitCode, printedText p.output⟩ := by
  rw [completed, printedText, Text.lines_unifyNewlines]

/-- The message stands below what was printed, or alone where that amounts to nothing. -/
theorem timedOut_eq (seconds : Seconds) (p : Process) :
    timedOut seconds p = ⟨exitTimeout,
      if printedText p.interrupted = [] then timeoutMessage seconds
      else printedText p.interrupted ++ .scalar '\n' :: timeoutMessage seconds⟩ := by
  have hmessage : timeoutMessage seconds ≠ [] := timeoutMessage_ne_nil seconds
  change (⟨exitTimeout, joinLines
    ([printedText p.interrupted, timeoutMessage seconds].filter (· ≠ []))⟩ : CommandResult) = _
  by_cases hprinted : printedText p.interrupted = []
  · rw [if_pos hprinted, hprinted]
    simp [hmessage, joinLines, Text.join]
  · rw [if_neg hprinted]
    simp [hmessage, hprinted, joinLines, Text.join]

variable {w : Workspace} {command : List Text} {limit : Option Seconds} {seconds : Seconds}
  {printed : Bytes} {code : Int}

/-- The command starts a process that prints the bytes and ends by itself, in time if there is a
limit. -/
def Completes (w : Workspace) (command : List Text) (limit : Option Seconds) (printed : Bytes)
    (code : Int) : Prop :=
  ∃ p, w.process? command = some p ∧ p.output = printed ∧ p.exitCode = code ∧
    (limit = none ∨ p.hangs = false)

/-- The command starts a process that has printed the bytes when its time is up. -/
def Overruns (w : Workspace) (command : List Text) (printed : Bytes) : Prop :=
  ∃ p, w.process? command = some p ∧ p.hangs = true ∧ p.interrupted = printed

theorem Completes.resultIn_eq (h : Completes w command limit printed code) :
    resultIn w command limit = .ok ⟨code, printedText printed⟩ := by
  obtain ⟨p, hprocess, rfl, rfl, hends⟩ := h
  have hfinish : finish limit p = completed p := by
    rcases hends with rfl | hends
    · rfl
    · cases limit with
      | none => rfl
      | some seconds => exact if_neg (by simp [hends])
  cases command with
  | nil => cases hprocess
  | cons word arguments => rw [resultIn, hprocess, ← completed_eq, ← hfinish]

theorem Overruns.resultIn_eq (h : Overruns w command printed) :
    resultIn w command (some seconds) = .ok ⟨exitTimeout,
      if printedText printed = [] then timeoutMessage seconds
      else printedText printed ++ .scalar '\n' :: timeoutMessage seconds⟩ := by
  obtain ⟨p, hprocess, hhangs, rfl⟩ := h
  have hinterrupted : Interrupted w command (some seconds) (timedOut seconds p) :=
    .timedOut hprocess rfl hhangs
  rw [hinterrupted.resultIn_eq, timedOut_eq]

end Command

namespace Action

variable {σ σ' : Session} {command : List Text} {limit : Option Seconds} {printed : Bytes}
  {code : Int}

/-- Where a process ends by itself in one session and its time is up in another, with the same bytes
printed in both, the output of the second command is that of the first with a message below it, or
the message alone if there is no other output. -/
theorem given_execute_overdue
    (hcompletes : Command.Completes σ.workspace command limit printed code)
    (hoverruns : Command.Overruns σ'.workspace command printed) (seconds : Seconds)
    (directory directory' : Option Path) :
    ∃ output message : Text,
      (execute command limit directory).given σ = .ok ⟨code, output⟩ ∧
      message = "Command timed out after " ++ seconds.shown ++ Text.ofString " seconds" ∧
      (execute command (some seconds) directory').given σ' =
        .ok ⟨124, if output = [] then message else output ++ .scalar '\n' :: message⟩ := by
  refine ⟨Command.printedText printed, Command.timeoutMessage seconds, ?_, rfl, ?_⟩
  · rw [(hasEffect_execute _ _ _).given_eq, hcompletes.resultIn_eq]
  · rw [(hasEffect_execute _ _ _).given_eq, hoverruns.resultIn_eq]
    rfl

/-- A session in which one program prints some bytes. -/
def printingSession (printed : Bytes) (hangs : Bool) : Session where
  workspace := { tools := [("psalm", { output := printed, hangs })] }
  directory := ⟨.slash, []⟩

/-- Two kinds of newlines, an empty line and a sequence of which the end is missing. -/
theorem given_execute_overdue_truncated :
    ∃ printed : Bytes, printed = [0x61, 0x0D, 0x0A, 0x0D, 0xE2, 0x82] ∧
      (execute ["psalm"] none none).given (printingSession printed false) =
        .ok ⟨0, Text.ofString "a\n\n\uFFFD"⟩ ∧
      (execute ["psalm"] (some (.whole 30)) none).given (printingSession printed true) =
        .ok ⟨124, Text.ofString "a\n\n\uFFFD\nCommand timed out after 30 seconds"⟩ := by
  let printed : Bytes := [0x61, 0x0D, 0x0A, 0x0D, 0xE2, 0x82]
  have hcompletes : Command.Completes (printingSession printed false).workspace ["psalm"] none
      printed 0 := ⟨_, rfl, rfl, rfl, Or.inl rfl⟩
  have hoverruns : Command.Overruns (printingSession printed true).workspace ["psalm"] printed :=
    ⟨_, rfl, rfl, rfl⟩
  obtain ⟨output, message, houtput, rfl, hoverdue⟩ :=
    given_execute_overdue hcompletes hoverruns (.whole 30) none none
  have hprinted : (execute ["psalm"] none none).given (printingSession printed false) =
      .ok ⟨0, Text.ofString "a\n\n\uFFFD"⟩ := rfl
  have hmessage : Text.ofString "a\n\n\uFFFD" ++ .scalar '\n' ::
      (Text.ofString "Command timed out after " ++ (Seconds.whole 30).shown ++
        Text.ofString " seconds") =
      Text.ofString "a\n\n\uFFFD\nCommand timed out after 30 seconds" := by decide +kernel
  cases houtput.symm.trans hprinted
  rw [if_neg (by decide), hmessage] at hoverdue
  exact ⟨printed, rfl, hprinted, hoverdue⟩

end Action

end LintReport
