import LintReport.Number.Whole
import LintReport.Text.Lines
import LintReport.Text.LetterCase
import LintReport.Text.Table

/-!
Annotations, findings that a tool writes for a build log, one a line:

    ::error title=lint/suspicious/noDebugger,file=main.js,line=1::Unexpected debugger statement.

A message escapes the percent sign and the two line breaks, and the value of a property escapes the
colon and the comma as well.
-/
namespace LintReport.Output

/-- A finding for a build log. -/
structure Annotation where
  severity : Text
  message : Text
  properties : Table Text
deriving DecidableEq, Repr

namespace Annotation

/-- The codes in a message. The code of the percent sign comes last, so that what it brings forth
is not taken for a code. -/
def messageCodes : List (Text × CodePoint) :=
  [("%0D", .scalar '\r'), ("%0A", .scalar '\n'), ("%25", .scalar '%')]

def propertyCodes : List (Text × CodePoint) :=
  [("%0D", .scalar '\r'), ("%0A", .scalar '\n'), ("%3A", .scalar ':'), ("%2C", .scalar ','),
   ("%25", .scalar '%')]

/-- The text with its codes replaced, one code after the other. -/
def unescape (codes : List (Text × CodePoint)) (s : Text) : Text :=
  codes.foldl (fun s (code, c) => Text.replace code [c] s) s

def unescapeMessage (s : Text) : Text := unescape messageCodes s

def unescapeProperty (s : Text) : Text := unescape propertyCodes s

def isLetter : CodePoint → Bool
  | .scalar c => c.isAlpha
  | .surrogate _ => false

/-- A property, if there is an equals sign. -/
def property? (s : Text) : Option (Text × Text) :=
  (Text.cut? "=" s).map fun (name, value) => (name.trimBlanks, unescapeProperty value)

/-- The properties between commas; a later one takes the place of an earlier one of its name. -/
def readProperties (s : Text) : Table Text :=
  Table.ofList ((Text.fields (.scalar ',') s).filterMap property?)

/-- The text between a severity and the message, and the message. -/
def splitMessage? : Text → Option (Text × Text)
  | .scalar ' ' :: s =>
    (Text.after? "::" (s.dropWhile (· ≠ .scalar ':'))).map
      fun message => (s.takeWhile (· ≠ .scalar ':'), message)
  | s => (Text.after? "::" s).map ([], ·)

/-- The text without a line feed at its end, if it has no other. -/
def oneLine? (s : Text) : Option Text :=
  match s.dropWhile (· ≠ .scalar '\n') with
  | [] | [_] => some (s.takeWhile (· ≠ .scalar '\n'))
  | _ => none

def parse? (line : Text) : Option Annotation := do
  let body ← Text.after? "::" (Text.trimRight (· = .scalar '\r') line)
  let severity := body.takeWhile isLetter
  if severity = [] then none
  let (props, rest) ← splitMessage? (body.dropWhile isLetter)
  let message ← oneLine? rest
  return { severity := Text.asciiLower severity
           message := unescapeMessage message
           properties := readProperties props }

def parseAll (text : Text) : List Annotation := text.lines.filterMap parse?

def number? (name : Text) (a : Annotation) : Option Int :=
  (Table.get? name a.properties).bind Text.toInt?

end Annotation

end LintReport.Output
