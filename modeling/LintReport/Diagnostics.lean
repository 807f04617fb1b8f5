import LintReport.Fault
import LintReport.Json.Writer
import LintReport.Text.LetterCase

/-!
Diagnostics, the lines beside the report. Each record has a level, and a threshold decides which
records are shown; they are shown as plain text or as JSON, one record a line.
-/
namespace LintReport

/-- Levels are numbers, so that there can be others between the five with a name. -/
abbrev Level := Int

namespace Level

def debug : Level := 10
def info : Level := 20
def warning : Level := 30
def error : Level := 40
def critical : Level := 50

def names : List (Text × Level) :=
  [("DEBUG", debug), ("INFO", info), ("WARNING", warning), ("ERROR", error),
   ("CRITICAL", critical), ("NOTSET", 0)]

/-- The name of a level, or its number. -/
def name (level : Level) : Text :=
  match names.find? fun n => n.2 = level with
  | some (name, _) => name
  | none => "Level " ++ Text.ofInt level

/-- All words that the environment may use for a level. -/
def words : List (Text × Level) := ("WARN", warning) :: ("FATAL", critical) :: names

/-- A word that looks like a level to the environment but names the layout of a line. -/
def layoutWord : Text := "BASIC_FORMAT"

def layout : Text := "%(levelname)s:%(name)s:%(message)s"

/-- A word that names the table of all layouts. -/
def layoutsWord : Text := "_STYLES"

/-- What it names: the marks of the places in a layout, each with a class and a layout. -/
def layouts : Text :=
  Text.ofString "\x7b'%': (<class 'logging.PercentStyle'>, " ++ layout.quoted ++
  Text.ofString "), '\x7b': (<class 'logging.StrFormatStyle'>, " ++
  Text.quoted "\x7blevelname\x7d:\x7bname\x7d:\x7bmessage\x7d" ++
  Text.ofString "), '$': (<class 'logging.StringTemplateStyle'>, " ++
  Text.quoted "$\x7blevelname\x7d:$\x7bname\x7d:$\x7bmessage\x7d" ++ Text.ofString ")\x7d"

/-- The level for a verbosity: warnings only from zero down, everything from two on. -/
def ofVerbosity (verbosity : Int) : Level :=
  if verbosity ≤ 0 then warning else if verbosity = 1 then info else debug

end Level

namespace Logger

/-! The parts of the program that say something. -/

def top : Text := "root"
def program : Text := "codequality.main"
def commands : Text := "codequality.core.util"
def configuration : Text := "codequality.core.config"
def interpreters : Text := "codequality.analyzers.runtime"
def sources : Text := "codequality.normalizers.biome_normalizer"
def pipeline : Text := "codequality.services.analysis_service"

/-- The part with a name; the whole program has none. -/
def named (name : Text) : Text := if name = [] then top else name

end Logger

/-- Something that was said during a run. -/
structure Record where
  level : Level
  logger : Text
  message : Text
  stage : Option Text := none
  error : Option Text := none
  /-- When it was said, as the clock shows it. A clock that nobody has set stands at its start. -/
  time : Text := "1970-01-01T00:00:00+00:00"
deriving DecidableEq, Repr

namespace Record

/-- The record as plain text: the message, and the error on a line of its own. -/
def plain (r : Record) : Text :=
  match r.error with
  | none => r.message
  | some error =>
    if r.message.getLast? = some (.scalar '\n') then
      r.message ++ error
    else
      r.message ++ .scalar '\n' :: error

def toJson (r : Record) : Json :=
  let optional (name : Text) (v : Option Text) : List (Text × Json) :=
    v.toList.map fun t => (name, .string t)
  .object
    (("ts", .string r.time) :: ("level", .string r.level.name) ::
      ("logger", .string r.logger) :: ("msg", .string r.message) ::
      (optional "stage" r.stage ++ optional "exc" r.error))

end Record

/-- Which records are shown, and how. -/
structure Diagnostics where
  threshold : Level
  json : Bool
deriving DecidableEq, Repr

namespace Diagnostics

def initial : Diagnostics := ⟨Level.warning, false⟩

/-- The level of a run: that of its verbosity, unless the environment names another one. -/
def threshold? (environment : Table Text) (verbosity : Int) : Except Fault Level :=
  let word := ((Table.get? "LOG_LEVEL" environment).getD []).upperInAscii
  if word = Level.layoutWord then
    .error (.unknownLevel Level.layout)
  else if word = Level.layoutsWord then
    .error (.notALevel Level.layouts)
  else
    match Level.words.find? fun w => w.1 = word with
    | some (_, level) => .ok level
    | none => .ok (.ofVerbosity verbosity)

/-- Diagnostics for a verbosity, as far as the environment leaves it the choice. -/
def configure (environment : Table Text) (verbosity : Int) : Except Fault Diagnostics := do
  let threshold ← threshold? environment verbosity
  return { threshold, json := Text.lower ((Table.get? "LOG_FORMAT" environment).getD []) = "json" }

/-- Is a record shown? Levels up to zero never are. -/
def shows (d : Diagnostics) (level : Level) : Bool := 0 < level && d.threshold ≤ level

def render (d : Diagnostics) (r : Record) : Text :=
  if d.shows r.level then
    (if d.json then r.toJson.compact .ascii else r.plain) ++ [.scalar '\n']
  else
    []

end Diagnostics

end LintReport
