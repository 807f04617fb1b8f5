import LintReport.Json.Basic
import LintReport.Text.Quoted

/-!
Writing JSON text, on one line or with one item a line. String literals escape quotes,
backslashes and control characters; an ASCII text escapes everything beyond `~` as well.
-/
namespace LintReport.Json

/-- Which units a string literal shows as themselves. -/
inductive Charset where
  | ascii
  | unicode
deriving DecidableEq, Repr

/-- A hexadecimal escape of a number below `0x10000`. -/
def hexEscape (n : Nat) : Text := .scalar '\\' :: .scalar 'u' :: Text.ofChars (hexDigits 4 n)

def literalUnit (charset : Charset) (c : CodePoint) : Text :=
  match c with
  | .scalar '"' => [.scalar '\\', .scalar '"']
  | .scalar '\\' => [.scalar '\\', .scalar '\\']
  | .scalar '\n' => [.scalar '\\', .scalar 'n']
  | .scalar '\r' => [.scalar '\\', .scalar 'r']
  | .scalar '\t' => [.scalar '\\', .scalar 't']
  | .scalar '\x08' => [.scalar '\\', .scalar 'b']
  | .scalar '\x0C' => [.scalar '\\', .scalar 'f']
  | c =>
    if c.value < 0x20 then hexEscape c.value
    else if charset = .unicode ∨ c.value < 0x7F then [c]
    else if c.value < 0x10000 then hexEscape c.value
    else
      hexEscape (0xD800 + (c.value - 0x10000) / 0x400) ++
        hexEscape (0xDC00 + (c.value - 0x10000) % 0x400)

def literal (charset : Charset) (s : Text) : Text :=
  .scalar '"' :: s.flatMap (literalUnit charset) ++ [.scalar '"']

/-- A double, whose words are those that the reader knows. -/
def floatText : Binary64 → Text
  | .nan => "NaN"
  | .infinite negative => if negative then "-Infinity" else "Infinity"
  | x => x.shown

mutual

/-- The value on one line, with a blank after every comma and colon. -/
def compact (charset : Charset) : Json → Text
  | null => "null"
  | bool b => if b then "true" else "false"
  | int n => Text.ofInt n
  | float x => floatText x
  | string s => literal charset s
  | array items => .scalar '[' :: compactItems charset items ++ [.scalar ']']
  | object members => .scalar '{' :: compactMembers charset members ++ [.scalar '}']

def compactItems (charset : Charset) : List Json → Text
  | [] => []
  | [v] => compact charset v
  | v :: vs => compact charset v ++ .scalar ',' :: .scalar ' ' :: compactItems charset vs

def compactMembers (charset : Charset) : List (Text × Json) → Text
  | [] => []
  | [(name, v)] => literal charset name ++ .scalar ':' :: .scalar ' ' :: compact charset v
  | (name, v) :: ms =>
    literal charset name ++ .scalar ':' :: .scalar ' ' :: compact charset v ++
      .scalar ',' :: .scalar ' ' :: compactMembers charset ms

end

def lineBreak (unit : Text) (depth : Nat) : Text :=
  .scalar '\n' :: (List.replicate depth unit).flatten

mutual

/-- The value with every item and member on a line of its own, indented by `unit` once for each
array or object around it. -/
def pretty (unit : Text) (depth : Nat) : Json → Text
  | array [] => "[]"
  | array items =>
    .scalar '[' :: prettyItems unit (depth + 1) items ++ lineBreak unit depth ++ [.scalar ']']
  | object [] => [.scalar '{', .scalar '}']
  | object members =>
    .scalar '{' :: prettyMembers unit (depth + 1) members ++ lineBreak unit depth ++ [.scalar '}']
  | v => compact .unicode v

def prettyItems (unit : Text) (depth : Nat) : List Json → Text
  | [] => []
  | [v] => lineBreak unit depth ++ pretty unit depth v
  | v :: vs =>
    lineBreak unit depth ++ pretty unit depth v ++ .scalar ',' :: prettyItems unit depth vs

def prettyMembers (unit : Text) (depth : Nat) : List (Text × Json) → Text
  | [] => []
  | [(name, v)] =>
    lineBreak unit depth ++ literal .unicode name ++ .scalar ':' :: .scalar ' ' ::
      pretty unit depth v
  | (name, v) :: ms =>
    lineBreak unit depth ++ literal .unicode name ++ .scalar ':' :: .scalar ' ' ::
      pretty unit depth v ++ .scalar ',' :: prettyMembers unit depth ms

end

end LintReport.Json
