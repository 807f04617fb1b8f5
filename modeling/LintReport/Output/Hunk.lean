import LintReport.Fault
import LintReport.Text.LetterCase

/-!
Hunk headers. A fixer reports a change as a diff, and the only line number in it is that of the
first hunk, which starts three lines of context before the change.
-/
namespace LintReport.Output

/-- How many unchanged lines stand before a change. -/
def contextLines : Nat := 3

/-- What follows a mark and the blanks before it. -/
def afterBlanks? (mark s : Text) : Option Text :=
  Text.after? mark (s.dropWhile CodePoint.isBlank)

def digits? (s : Text) : Option (List Nat × Text) :=
  match s.spanDigits CodePoint.digit? with
  | ([], _) => none
  | found => some found

/-- Two numbers with a comma between them: the digits of the first, and what follows. -/
def range? (s : Text) : Option (List Nat × Text) := do
  let (start, s) ← digits? s
  let s ← Text.after? "," s
  let (_, s) ← digits? s
  return (start, s)

/-- A hunk header at the start of a text: the digits of its first line number. -/
def header? (s : Text) : Option (List Nat) := do
  let s ← Text.after? "@@" s
  let s ← afterBlanks? "-" s
  let (start, s) ← range? s
  let s ← afterBlanks? "+" s
  let (_, s) ← range? s
  let _ ← afterBlanks? "@@" s
  return start

/-- What follows the two lines that name the sides of a diff. -/
def preamble? (s : Text) : Option Text := do
  let s ← Text.after? "---" s
  let s ← Text.afterFolded? "original\n+++" (s.dropWhile CodePoint.isBlank)
  Text.afterFolded? "new\n" (s.dropWhile CodePoint.isBlank)

/-- A hunk header at the start of a text, the names of the two sides before it or not. -/
def headerOrPreamble? (s : Text) : Option (List Nat) :=
  ((preamble? s).bind header?).or (header? s)

def firstHeader? : Text → Option (List Nat)
  | [] => none
  | c :: s => (headerOrPreamble? (c :: s)).or (firstHeader? s)

/-- The line that a change is most likely about; line 1 if there is no hunk. -/
def estimatedLine (diff : Text) : Except Fault Nat :=
  match firstHeader? diff with
  | none => .ok 1
  | some ds =>
    if ds.length ≤ maxDigits then
      .ok (ofDigits ds + contextLines)
    else
      .error (.oversizedNumber ds.length)

end LintReport.Output
