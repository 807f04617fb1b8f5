import LintReport.Output.Envelope

/-!
Decoding entry by entry. An entry of a wrong shape spoils a document, but what stands before it is
decoded all the same. Two kinds of documents are common: a map from files to lists of records, and a
list with one entry a file, which holds a list of records.
-/
namespace LintReport

/-- What was decoded before the first entry of a wrong shape, and whether there was none. -/
structure Decoded (α : Type) where
  items : List α
  intact : Bool

namespace Decoded

variable {α β : Type}

/-- An output that is no document of the expected kind. -/
def spoiled : Decoded α := ⟨[], false⟩

/-- The items of the entries in their order, where `none` is an entry of a wrong shape. -/
def ofEntries : List (Option (List α)) → Decoded α
  | [] => ⟨[], true⟩
  | none :: _ => spoiled
  | some items :: entries =>
    let rest := ofEntries entries
    ⟨items ++ rest.items, rest.intact⟩

def map (f : α → β) (d : Decoded α) : Decoded β := ⟨d.items.map f, d.intact⟩

/-- The records under a name in a text that maps files to them, each with its file. -/
def ofFileMap (name text : Text) : Decoded (Text × Json) :=
  match (Output.document? text).bind Output.files? with
  | none => spoiled
  | some files => ofEntries (files.map fun (file, entry) =>
      (Output.fileRecords? name entry).map fun records => records.map (file, ·))

/-- The records under a name in a text that lists entries with them, each with its entry. -/
def ofEntryList (name text : Text) : Decoded (Json × Json) :=
  match Output.items? (Output.document? text) with
  | none => spoiled
  | some entries => ofEntries (entries.map fun entry =>
      (Output.entryRecords? name entry).map fun records => records.map (entry, ·))

end Decoded

end LintReport
