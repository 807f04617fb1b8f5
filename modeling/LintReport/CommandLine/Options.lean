import LintReport.CommandLine.Flag
import LintReport.Json.Basic

/-!
What a command line asks for. All words are looked at before any flag takes effect, so an ambiguous
word is reported first; then the flags take effect from left to right, and words that belong to no
flag are reported last.
-/
namespace LintReport.CommandLine

/-- The options of a run. An option that was not given leaves the choice to the settings. -/
structure Options where
  strict : Bool := false
  verbosity : Option Nat := none
  phpRoot : Text := []
  jsRoot : Text := []
  binDir : Json := .null

inductive Request where
  | run (options : Options)
  | help
  | version
  | reject (error : UsageError)

namespace Options

/-- Two dashes that are attached to a flag count as no argument. -/
def isNoArgument (argument : Text) : Bool := argument = [Word.dash, Word.dash]

def withArgument (o : Options) (f : Flag) (argument : Text) : Options :=
  let given : Text := if isNoArgument argument then [] else argument
  match f with
  | .phpRoot => { o with phpRoot := given }
  | .jsRoot => { o with jsRoot := given }
  | .binDir =>
    { o with binDir := if isNoArgument argument then .array [] else .string argument }
  | _ => o

def withFlag (o : Options) : Flag → Options
  | .strict => { o with strict := true }
  | .verbosity level => { o with verbosity := some level }
  | _ => o

def overrides (o : Options) : Table Json :=
  [("strict", if o.strict then .bool true else .null),
   ("verbosity", o.verbosity.elim .null fun n => .int n),
   ("bin_dir", o.binDir)]

end Options

/-- The flags in one word: one that takes no argument, and short ones attached to it. -/
def cluster (f : Flag) (short : Bool) : (attached : Text) → Except UsageError (List Flag)
  | [] => .error (.unwantedArgument f [])
  | c :: rest =>
    match if short then Flag.ofSpelling? [Word.dash, c] else none with
    | none => .error (.unwantedArgument f (c :: rest))
    | some g => if rest = [] then .ok [f, g] else (cluster g true rest).map (f :: ·)

def flagsIn (f : Flag) (spelling : Text) : (attached : Option Text) → Except UsageError (List Flag)
  | none => .ok [f]
  | some attached => cluster f (!Text.beginsWith [Word.dash, Word.dash] spelling) attached

/-- Lets flags take effect that have no arguments. Help and version end everything. -/
def applyFlags (o : Options) : List Flag → Except Request Options
  | [] => .ok o
  | .help :: _ => .error .help
  | .version :: _ => .error .version
  | f :: fs => applyFlags (o.withFlag f) fs

/-- Lets the words take effect; `stray` holds those that belong to no flag. -/
def interpret (o : Options) (stray : List Text) : List Word → Request
  | [] => if stray = [] then .run o else .reject (.unrecognized stray)
  | .plain word :: words => interpret o (stray ++ [word]) words
  | .separator :: words => interpret o (stray ++ [[Word.dash, Word.dash]]) words
  | .unknown word :: words => interpret o (stray ++ [word]) words
  | .flag f spelling attached :: words =>
    if f.takesArgument then
      match attached, words with
      | some argument, words => interpret (o.withArgument f argument) stray words
      | none, .plain argument :: words => interpret (o.withArgument f argument) stray words
      | none, _ => .reject (.missingArgument f)
    else
      match flagsIn f spelling attached with
      | .error e => .reject e
      | .ok flags =>
        match applyFlags o flags with
        | .error request => request
        | .ok o => interpret o stray words

def request (arguments : List Text) : Request :=
  match Word.classifyAll arguments with
  | .error e => .reject e
  | .ok words => interpret {} [] words

end LintReport.CommandLine
