import LintReport.Number.Whole
import LintReport.Text.Table

/-!
Flags, the options of the command line. A word that starts with a dash names a flag by one of its
spellings, by an unambiguous beginning of a long one, or by a short one with further short ones in
the same word.
-/
namespace LintReport.CommandLine

/-- An option of the command line. -/
inductive Flag where
  | help
  | version
  | strict
  | verbosity (level : Nat)
  | phpRoot
  | jsRoot
  | binDir
deriving DecidableEq, Repr

/-- What can be wrong with a command line. -/
inductive UsageError where
  | ambiguous (word : Text) (candidates : List Text)
  | missingArgument (flag : Flag)
  | unwantedArgument (flag : Flag) (argument : Text)
  | unrecognized (words : List Text)
deriving DecidableEq, Repr

namespace Flag

/-- All spellings, in the order in which they are offered. -/
def spellings : List (Text × Flag) :=
  [("-h", help), ("--help", help), ("-v", version), ("--version", version), ("-s", strict),
   ("--strict", strict), ("-vv", verbosity 2), ("--verbose", verbosity 2), ("-vvv", verbosity 3),
   ("-vvvv", verbosity 4), ("--php-root", phpRoot), ("--js-root", jsRoot), ("--bin-dir", binDir)]

def ofSpelling? (spelling : Text) : Option Flag := Table.get? spelling spellings

def takesArgument : Flag → Bool
  | phpRoot | jsRoot | binDir => true
  | _ => false

/-- The spellings of a flag with slashes between them. -/
def names (f : Flag) : Text :=
  Text.join [.scalar '/'] ((spellings.filter fun s => s.2 = f).map (·.1))

end Flag

/-- A word of the command line. -/
inductive Word where
  /-- It is no flag, but may be the argument of one. -/
  | plain (word : Text)
  /-- Two dashes: no word behind them is a flag. -/
  | separator
  /-- A flag, the spelling that was meant, and an argument in the same word. -/
  | flag (flag : Flag) (spelling : Text) (attached : Option Text)
  /-- It looks like a flag but is none. -/
  | unknown (word : Text)
deriving DecidableEq, Repr

namespace Word

def dash : CodePoint := .scalar '-'

/-- Is it empty but for a line feed? -/
def isOver (s : Text) : Bool := s = [] || s = [.scalar '\n']

/-- Is it a number behind the minus sign? -/
def isNumber (s : Text) : Bool :=
  match s.spanDigits CodePoint.digit? with
  | (_, .scalar '.' :: r) =>
    let (fraction, rest) := Text.spanDigits CodePoint.digit? r
    fraction ≠ [] && isOver rest
  | (whole, r) => whole ≠ [] && isOver r

/-- A word in two parts at its first equals sign. -/
def splitValue (word : Text) : Text × Option Text :=
  match Text.cut? [.scalar '='] word with
  | some (spelling, value) => (spelling, some value)
  | none => (word, none)

/-- The flags that a word with one or two dashes may stand for, with their arguments. -/
def candidates (word : Text) : List Word :=
  match word with
  | .scalar '-' :: .scalar '-' :: _ =>
    let (start, value) := splitValue word
    Flag.spellings.filterMap fun (spelling, f) =>
      if Text.beginsWith start spelling then some (.flag f spelling value) else none
  | _ =>
    Flag.spellings.filterMap fun (spelling, f) =>
      if spelling = word.take 2 then some (.flag f spelling (some (word.drop 2)))
      else if Text.beginsWith word spelling then some (.flag f spelling none)
      else none

def spelling? : Word → Option Text
  | flag _ spelling _ => some spelling
  | _ => none

/-- A word that starts with a dash but is no spelling of a flag, with or without a value. -/
def guess (word : Text) : Except UsageError Word :=
  match candidates word with
  | [found] => .ok found
  | [] =>
    .ok (if isNumber (word.drop 1) || .scalar ' ' ∈ word then plain word else unknown word)
  | found => .error (.ambiguous word (found.filterMap spelling?))

/-- A word before any separator. -/
def classify (word : Text) : Except UsageError Word :=
  if word.head? ≠ some dash then
    .ok (plain word)
  else
    match Flag.ofSpelling? word with
    | some f => .ok (flag f word none)
    | none =>
      if word.length = 1 then .ok (plain word) else
        match splitValue word with
        | (start, some value) =>
          match Flag.ofSpelling? start with
          | some f => .ok (flag f start (some value))
          | none => guess word
        | (_, none) => guess word

def classifyAll : List Text → Except UsageError (List Word)
  | [] => .ok []
  | word :: words =>
    if word = [dash, dash] then
      .ok (separator :: words.map plain)
    else do
      let w ← classify word
      let ws ← classifyAll words
      return w :: ws

end Word

end LintReport.CommandLine
