import LintReport.Fault
import LintReport.Number.Written
import LintReport.Path
import LintReport.Tool.Basic

/-!
Rules for single settings. A rule turns a JSON value into the value of a setting, or names itself as
broken. Rules are lenient where the intent is plain: numbers and truth values may be texts, and
texts lose the white space around them.
-/
namespace LintReport.Settings

/-- A rule: the value of a setting, or the name of what is wrong. -/
abbrev Rule (α : Type) := Json → Except Text α

/-- Text without white space around it. -/
def text : Rule Text
  | .string s =>
    if s.any CodePoint.isSurrogate then .error "string_unicode" else .ok s.trimWhiteSpace
  | _ => .error "string_type"

def truthWords : List (Text × Bool) :=
  [("0", false), ("off", false), ("f", false), ("false", false), ("n", false), ("no", false),
   ("1", true), ("on", true), ("t", true), ("true", true), ("y", true), ("yes", true)]

/-- The bound below which a double counts as a whole number. -/
def wholeBound : Nat := Nat.pow 2 63

def truthOf (n : Int) : Except Text Bool :=
  if n = 0 then .ok false else if n = 1 then .ok true else .error "bool_parsing"

/-- A truth value, as itself, as 0 or 1, or as a word without blanks around it. Large numbers are of
the wrong kind. -/
def truth : Rule Bool
  | .bool b => .ok b
  | .int n => if -wholeBound ≤ n ∧ n < wholeBound then truthOf n else .error "bool_type"
  | .float x =>
    match x.toInt? with
    | some n => if n.natAbs < wholeBound then truthOf n else .error "bool_type"
    | none => .error "bool_type"
  | .string s =>
    if s.any CodePoint.isSurrogate then .error "string_unicode" else
      match truthWords.find? fun w => w.1 = Text.asciiLower s with
      | some (_, b) => .ok b
      | none => .error "bool_parsing"
  | _ => .error "bool_type"

/-- A switch that only the value false turns off. -/
def switch : Rule Bool
  | .bool b => .ok b
  | _ => .ok true

def whole : Rule Int
  | .int n => .ok n
  | .bool b => .ok (if b then 1 else 0)
  | .float x =>
    match x, x.toInt? with
    | .finite _ _ _, some n =>
      if n.natAbs < wholeBound then .ok n else .error "int_parsing_size"
    | .finite _ _ _, none => .error "int_from_float"
    | _, _ => .error "finite_number"
  | .string s =>
    if s.any CodePoint.isSurrogate then .error "string_unicode" else
      match s.toWholeNumber with
      | .ok n => .ok n
      | .error .malformed => .error "int_parsing"
      | .error .tooLong => .error "int_parsing_size"
  | _ => .error "int_type"

def real : Rule Binary64
  | .float x => .ok x
  | .bool b => .ok (.ofInt (if b then 1 else 0))
  | .int n =>
    match Binary64.ofInt n with
    | .infinite _ => .error "float_type"
    | x => .ok x
  | .string s =>
    if s.any CodePoint.isSurrogate then .error "string_unicode" else
      match s.toBinary64? with
      | some x => .ok x
      | none => .error "float_parsing"
  | _ => .error "float_type"

def path : Rule Path
  | .string s =>
    if s.any CodePoint.isSurrogate then .error "path_type" else .ok (.ofText s.trimWhiteSpace)
  | _ => .error "path_type"

def nullable {α : Type} (rule : Rule α) : Rule (Option α)
  | .null => .ok none
  | v => (rule v).map some

def oneOf {α : Type} (words : List (Text × α)) : Rule α
  | .string s =>
    if s.any CodePoint.isSurrogate then .error "string_unicode" else
      match words.find? fun w => w.1 = s with
      | some (_, a) => .ok a
      | none => .error "literal_error"
  | _ => .error "literal_error"

/-- A value and the problems that were met on the way to it. The value counts only if there are
none. -/
structure Checked (α : Type) where
  value : α
  problems : List Problem

namespace Checked

instance : Monad Checked where
  pure a := ⟨a, []⟩
  bind c f := ⟨(f c.value).value, c.problems ++ (f c.value).problems⟩

/-- A value for every tool, with the problems in the order of the tools. -/
def forTools {α : Type} (tools : List Tool) (check : Tool → Checked α) : Checked (Tool → α) :=
  ⟨fun t => (check t).value, tools.flatMap fun t => (check t).problems⟩

def toExcept {α : Type} (c : Checked α) : Except (List Problem) α :=
  if c.problems = [] then .ok c.value else .error c.problems

end Checked

/-- The member that gives a setting: the first of its names that is there. -/
def given? (names : List Text) (members : Table Json) : Option (Text × Json) :=
  names.findSome? fun name => (Table.get? name members).map (name, ·)

/-- A setting that goes by several names. Without any of them it has its default. -/
def setting {α : Type} (names : List Text) (default : α) (rule : Rule α) (members : Table Json) :
    Checked α :=
  match given? names members with
  | none => ⟨default, []⟩
  | some (name, v) =>
    match rule v with
    | .ok a => ⟨a, []⟩
    | .error broken => ⟨default, [⟨name, broken⟩]⟩

end LintReport.Settings
