import LintReport.Text.Utf8
import LintReport.Json.Reader
import LintReport.Json.Shown

/-!
Everything that can end a run without an answer, by cause. The wording of each cause stands in one
function.
-/
namespace LintReport

open Text (ofString ofChars ofNat)

/-- A setting that was refused: the name it was given under, and the rule that it broke. -/
structure Problem where
  field : Text
  rule : Text
deriving DecidableEq, Repr

def Problem.list (problems : List Problem) : Text :=
  Text.join "; " (problems.map fun p => p.field ++ ": " ++ p.rule)

inductive Fault where
  | infinitePosition
  /-- A text that has to become bytes holds half a surrogate pair. -/
  | unencodable (fault : Unencodable)
  /-- The rules that a fixer applied are neither a list nor anything else with elements. -/
  | notIterable (value : Json)
  /-- The change that a fixer made is not a text. -/
  | notSearchable (value : Json)
  | notAPath (value : Json)
  | nulInPath
  /-- A run of digits is too long to be read as a number. -/
  | oversizedNumber (digits : Nat)
  | unreadable (mistake : Json.Mistake) (spot : Json.Spot)
  /-- A number has too many digits to be written. -/
  | unwritableNumber
  | unknownSeverity (value : Json)
  | unknownLevel (name : Text)
  /-- The log level names a thing that is not even a name. -/
  | notALevel (spelling : Text)
  | emptyCommand
  | noSuchDirectory (path : Text)
  | notADirectory (path : Text)
  | invalidSettings (problems : List Problem)
  | noDecoder (tool : Text)
  | unknownName (name : Text)
deriving Repr

/-- Where a text could not be encoded, in words. -/
def Unencodable.message (fault : Unencodable) : Text :=
  let place : Text :=
    if fault.count = 1 then
      ofString "character '\\u" ++ ofChars (hexDigits 4 (0xD800 + fault.half.val)) ++
        ofString "' in position " ++ ofNat fault.position
    else
      ofString "characters in position " ++ ofNat fault.position ++ ofString "-" ++
        ofNat (fault.position + fault.count - 1)
  ofString "'utf-8' codec can't encode " ++ place ++ ofString ": surrogates not allowed"

def Fault.message : Fault → Text
  | infinitePosition => "cannot convert float infinity to integer"
  | unencodable fault => fault.message
  | notIterable value => ofString "'" ++ value.kindName ++ ofString "' object is not iterable"
  | notSearchable value =>
    ofString "expected string or bytes-like object, got '" ++ value.kindName ++ ofString "'"
  | notAPath value =>
    ofString "expected str, bytes or os.PathLike object, not " ++ value.kindName
  | nulInPath => "embedded null byte"
  | oversizedNumber digits =>
    ofString "Exceeds the limit (4300 digits) for integer string conversion: value has " ++
      ofNat digits ++
      ofString " digits; use sys.set_int_max_str_digits() to increase the limit"
  | unreadable mistake spot => mistake.message ++ ofString ": " ++ spot.toText
  | unwritableNumber =>
    ofString "Exceeds the limit (4300 digits) for integer string conversion; " ++
      ofString "use sys.set_int_max_str_digits() to increase the limit"
  | unknownSeverity value => ofString "Unknown severity: " ++ value.quoted
  | unknownLevel name => ofString "Unknown level: " ++ name.quoted
  | notALevel spelling => ofString "Level not an integer or a valid string: " ++ spelling
  | emptyCommand => "list index out of range"
  | noSuchDirectory path => ofString "[Errno 2] No such file or directory: " ++ path.quoted
  | notADirectory path => ofString "[Errno 20] Not a directory: " ++ path.quoted
  | invalidSettings problems => Problem.list problems
  | noDecoder tool => ofString "No normalizer registered for " ++ tool
  | unknownName name => name.quoted

def Fault.ofReadError (s : Text) : Json.ReadError → Fault
  | .malformed mistake left => unreadable mistake (.before left s)
  | .oversizedNumber digits => oversizedNumber digits

/-- The value that a text has to spell. -/
def Json.demand (s : Text) : Except Fault Json := (Json.read s).mapError (Fault.ofReadError s)

end LintReport
