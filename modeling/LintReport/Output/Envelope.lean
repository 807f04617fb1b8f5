import LintReport.Json.Reader

/-!
The outer shapes of the documents that the tools print. A missing part counts as an empty one, and
so does an empty array where an object is due, because that is how an empty map is often written.
-/
namespace LintReport.Output

/-- The array or object that a text spells. -/
def document? (text : Text) : Option Json :=
  match Json.read text with
  | .ok (.array items) => some (.array items)
  | .ok (.object members) => some (.object members)
  | _ => none

def items? : Option Json → Option (List Json)
  | some (.array items) => some items
  | _ => none

/-- The map under `files`, from file names to what was found in them. -/
def files? (document : Json) : Option (Table Json) :=
  match document.member? "files" with
  | some (.array []) => some []
  | some (.object members) => some members
  | _ => none

def records? : Json → Option (List Json)
  | .null => some []
  | .array items => if items.all fun v => v.members?.isSome then some items else none
  | _ => none

/-- What was found in one file. -/
def fileContent? : Json → Option Json
  | .null => some (.object [])
  | .array [] => some (.object [])
  | .object members => some (.object members)
  | _ => none

/-- The records under a name in what was found in one file. -/
def fileRecords? (name : Text) (entry : Json) : Option (List Json) :=
  (fileContent? entry).bind fun found => records? (found.member name)

/-- The records under a name in an entry of a document. -/
def entryRecords? (name : Text) (entry : Json) : Option (List Json) :=
  entry.members?.bind fun _ => records? (entry.member name)

end LintReport.Output
