import LintReport.Json.Basic
import LintReport.Text.Quoted

/-!
How a value of any kind appears inside a message: a text as it is, everything else in the
notation of literals, where nested texts are quoted.
-/
namespace LintReport.Json

mutual

/-- A value in the notation of literals. -/
def quoted : Json → Text
  | null => "None"
  | bool b => if b then "True" else "False"
  | int n => Text.ofInt n
  | float x => x.shown
  | string s => s.quoted
  | array items => .scalar '[' :: quotedItems items ++ [.scalar ']']
  | object members => .scalar '{' :: quotedMembers members ++ [.scalar '}']

def quotedItems : List Json → Text
  | [] => []
  | [v] => quoted v
  | v :: vs => quoted v ++ .scalar ',' :: .scalar ' ' :: quotedItems vs

def quotedMembers : List (Text × Json) → Text
  | [] => []
  | [(name, v)] => Text.quoted name ++ .scalar ':' :: .scalar ' ' :: quoted v
  | (name, v) :: ms =>
    Text.quoted name ++ .scalar ':' :: .scalar ' ' :: quoted v ++
      .scalar ',' :: .scalar ' ' :: quotedMembers ms

end

/-- A value as it appears inside a message. -/
def shown : Json → Text
  | string s => s
  | v => v.quoted

/-- A value as it appears inside a message, where a blank one leaves nothing. -/
def shownOrNothing (v : Json) : Text := if v.isBlank then [] else v.shown

def kindName : Json → Text
  | null => "NoneType"
  | bool _ => "bool"
  | int _ => "int"
  | float _ => "float"
  | string _ => "str"
  | array _ => "list"
  | object _ => "dict"

end LintReport.Json
