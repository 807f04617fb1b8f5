import LintReport.Pipeline.Basic
import LintReport.Proofs.Finding.Source

/-!
Envelopes of findings. A document of a tool either has the shape that the tool's documents have, or
it has not, and then nothing in it counts. If it has, its findings are all that lies at the places
where findings lie, and every one of them becomes its own issue.
-/
namespace LintReport

/-! ### Shapes -/

namespace Json

def isObject (v : Json) : Bool := v.members?.isSome

/-- The items of an array; other values have none. -/
def items : Json → List Json
  | array items => items
  | _ => []

/-- The members of an object; other values have none. -/
def entries : Json → Table Json
  | object members => members
  | _ => []

/-- A list of objects, which may be missing. -/
def isRecordList : Json → Bool
  | null => true
  | array items => items.all isObject
  | _ => false

/-- What was found in a file: records under a name, or nothing at all. -/
def isFileContent (name : Text) : Json → Bool
  | null | array [] => true
  | object members => ((object members).member name).isRecordList
  | _ => false

/-- A map from files to what was found in them; an empty one may be an array. -/
def isFileMap (name : Text) (v : Json) : Bool :=
  match v.member? "files" with
  | some (array []) => true
  | some (object files) => files.all fun file => file.2.isFileContent name
  | _ => false

/-- The records of a file map, each with its file. -/
def byFile (name : Text) (v : Json) : List (Text × Json) :=
  (v.member "files").entries.flatMap fun (file, found) =>
    (found.member name).items.map (file, ·)

/-- An object with records under a name. -/
def isEntry (name : Text) (v : Json) : Bool := v.isObject && (v.member name).isRecordList

/-- A list of objects with records under a name. -/
def isEntryList (name : Text) : Json → Bool
  | array entries => entries.all (isEntry name)
  | _ => false

/-- The records of an entry list, each with its entry. -/
def byEntry (name : Text) (v : Json) : List (Json × Json) :=
  v.items.flatMap fun entry => (entry.member name).items.map (entry, ·)

/-- An object, where any blank value counts as an empty one. -/
def isObjectOrBlank (v : Json) : Bool := v.isBlank || v.isObject

end Json

namespace Biome

def isDiagnostic (entry : Json) : Bool :=
  entry.isObject && (entry.member "location").isObjectOrBlank &&
    ((entry.member "location").member "path").isObjectOrBlank

def diagnosticAt (entry : Json) : Diagnostic where
  entry := entry
  file := ((entry.member "location").member "path").member "file"
  span := span? ((entry.member "location").member "span")
  source := match (entry.member "location").member "sourceCode" with
    | .string s => some s
    | _ => none

/-- Does a document have the shape of a list of diagnostics? -/
def isDiagnosticList (document : Json) : Bool :=
  match document.member "diagnostics" with
  | .array entries => entries.all isDiagnostic
  | _ => false

end Biome

namespace Tool

/-- The text that is read as the document of a tool. -/
def documentText (t : Tool) (output : Text) : Text :=
  match t with
  | .psalm | .styleLint => Output.withoutBanner "[" output
  | .esLint => Output.withoutSources (Output.withoutBanner "[" output)
  | .phpStan | .phpCs | .ecs | .biome => Output.withoutBanner "\x7b" output

/-- Does a document have the shape that the documents of a tool have? -/
def fits (t : Tool) (document : Json) : Bool :=
  match t with
  | .psalm => match document with
    | .array entries => entries.all Json.isObject
    | _ => false
  | .phpStan | .phpCs => document.isFileMap "messages"
  | .ecs => document.isFileMap "diffs"
  | .esLint => document.isEntryList "messages"
  | .styleLint => document.isEntryList "warnings"
  | .biome => Biome.isDiagnosticList document

/-- A list of issues one by one; a fault in place of the list stays alone. -/
def spread : Except Fault (List Issue) → List (Except Fault Issue)
  | .ok issues => issues.map .ok
  | .error fault => [.error fault]

/-- The issues of the findings in a document, finding by finding. -/
def reported (w : Workspace) (d : Path) (workingDir : Text) (sourceDir : Path) (t : Tool)
    (document : Json) : List (Except Fault Issue) :=
  match t with
  | .psalm => document.items.map fun entry => (Psalm.finding entry).toIssue workingDir
  | .phpStan => (document.byFile "messages").map fun (file, message) =>
      (PhpStan.finding file message).toIssue workingDir
  | .phpCs => (document.byFile "messages").map fun (file, message) =>
      (PhpCs.finding file message).toIssue workingDir
  | .ecs => (document.byFile "diffs").flatMap fun diff => spread (Ecs.diffIssues workingDir diff)
  | .esLint => (document.byEntry "messages").map fun (entry, message) =>
      (EsLint.finding entry message).toIssue workingDir
  | .styleLint => (document.byEntry "warnings").map fun (entry, warning) =>
      (StyleLint.finding entry warning).toIssue workingDir
  | .biome => (document.member "diagnostics").items.map fun entry =>
      (Biome.diagnosticAt entry).issueIn w d workingDir sourceDir

end Tool

/-! ### Parts of a shape -/

namespace Output

theorem records?_eq (v : Json) : records? v = if v.isRecordList then some v.items else none := by
  cases v with
  | null => rfl
  | array items => rfl
  | _ => rfl

theorem fileRecords?_eq (name : Text) (v : Json) :
    fileRecords? name v = if v.isFileContent name then some (v.member name).items else none := by
  cases v with
  | null => rfl
  | array items =>
    cases items with
    | nil => rfl
    | cons item items => rfl
  | object members => exact records?_eq ((Json.object members).member name)
  | _ => rfl

theorem entryRecords?_eq (name : Text) (v : Json) :
    entryRecords? name v = if v.isEntry name then some (v.member name).items else none := by
  cases v with
  | object members => exact records?_eq ((Json.object members).member name)
  | _ => rfl

end Output

namespace Biome

/-- A blank value is read as an object without members. -/
theorem objectOrEmpty?_spec (v : Json) :
    (v.isObjectOrBlank = true ∧
      ∃ o, objectOrEmpty? v = some o ∧ ∀ name, o.member name = v.member name) ∨
      (v.isObjectOrBlank = false ∧ objectOrEmpty? v = none) := by
  cases hblank : v.isBlank with
  | true =>
    left
    refine ⟨by rw [Json.isObjectOrBlank, hblank, Bool.true_or], .object [], ?_, fun name => ?_⟩
    · rw [objectOrEmpty?, if_pos hblank]
    · cases v with
      | object members =>
        rw [Json.isBlank, List.isEmpty_iff] at hblank
        rw [hblank]
      | _ => rfl
  | false =>
    rw [objectOrEmpty?, if_neg (by simp [hblank]), Json.isObjectOrBlank, hblank, Bool.false_or]
    cases v with
    | object members => exact Or.inl ⟨rfl, _, rfl, fun name => rfl⟩
    | _ => exact Or.inr ⟨rfl, rfl⟩

theorem diagnostic?_eq (entry : Json) :
    diagnostic? entry = if isDiagnostic entry then some (diagnosticAt entry) else none := by
  cases hentry : entry.members? with
  | none => simp [diagnostic?, isDiagnostic, Json.isObject, hentry]
  | some members =>
    have hobject : entry.isObject = true := by rw [Json.isObject, hentry, Option.isSome_some]
    rw [diagnostic?, hentry, isDiagnostic, hobject, Bool.true_and]
    rcases objectOrEmpty?_spec (entry.member "location") with
      ⟨hlocation, location, hsome, hmember⟩ | ⟨hlocation, hnone⟩
    · rw [hsome, hlocation, Bool.true_and]
      simp only [Option.bind_eq_bind, Option.bind_some, hmember]
      rcases objectOrEmpty?_spec ((entry.member "location").member "path") with
        ⟨hpath, path, hsome, hmember⟩ | ⟨hpath, hnone⟩
      · rw [hsome, hpath, if_pos rfl]
        simp only [Option.bind_some, hmember]
        rfl
      · rw [hnone, hpath]
        rfl
    · rw [hnone, hlocation]
      rfl

end Biome

namespace Decoded

variable {α β : Type}

/-! ### Decodings -/

theorem ofEntries_of_all {xs : List β} {f : β → Option (List α)} {g : β → List α}
    (h : ∀ x ∈ xs, f x = some (g x)) : ofEntries (xs.map f) = ⟨xs.flatMap g, true⟩ := by
  induction xs with
  | nil => rfl
  | cons x xs ih =>
    obtain ⟨hx, hxs⟩ := List.forall_mem_cons.mp h
    rw [List.map_cons, hx, ofEntries, ih hxs, List.flatMap_cons]

theorem not_intact_of_none {xs : List β} {f : β → Option (List α)} {x : β} (hx : x ∈ xs)
    (h : f x = none) : (ofEntries (xs.map f)).intact = false := by
  induction xs with
  | nil => cases hx
  | cons y xs ih =>
    rw [List.map_cons]
    cases hy : f y with
    | none => rfl
    | some found =>
      rcases List.mem_cons.mp hx with rfl | hx
      · rw [h] at hy
        cases hy
      · exact ih hx

/-- Entries of the right shape are decoded as a whole, and a single other one spoils them. -/
theorem ofEntries_spec (xs : List β) {f : β → Option (List α)} {p : β → Bool} {g : β → List α}
    (h : ∀ x, f x = if p x then some (g x) else none) :
    (xs.all p = true → ofEntries (xs.map f) = ⟨xs.flatMap g, true⟩) ∧
      (xs.all p = false → (ofEntries (xs.map f)).intact = false) := by
  constructor
  · intro hall
    refine ofEntries_of_all fun x hx => ?_
    rw [h, if_pos (List.all_eq_true.mp hall x hx)]
  · intro hall
    obtain ⟨x, hx, hp⟩ := List.all_eq_false.mp hall
    exact not_intact_of_none hx (by rw [h, if_neg hp])

/-- A decoding of a text in which a document is looked for: the items are those that were found in
a document of the right shape, and anything else spoils the decoding. -/
structure Decodes (d : Decoded α) (document : Option Json) (fits : Json → Bool)
    (found : Json → List α) : Prop where
  unread : document = none → d = .spoiled
  whole : ∀ v, document = some v → fits v = true → d = ⟨found v, true⟩
  spoiled : ∀ v, document = some v → fits v = false → d.intact = false

theorem Decodes.map {d : Decoded α} {document : Option Json} {fits : Json → Bool}
    {found : Json → List α} (h : d.Decodes document fits found) (f : α → β) :
    (d.map f).Decodes document fits fun v => (found v).map f where
  unread hnone := by rw [h.unread hnone]; rfl
  whole v hv hfits := by rw [h.whole v hv hfits]; rfl
  spoiled v hv hfits := h.spoiled v hv hfits

theorem files?_spec (name : Text) (v : Json) :
    (∃ files, Output.files? v = some files ∧
      v.isFileMap name = files.all (fun file => file.2.isFileContent name) ∧
      (v.member "files").entries = files) ∨
      (Output.files? v = none ∧ v.isFileMap name = false) := by
  unfold Output.files? Json.isFileMap Json.member
  cases v.member? "files" with
  | none => exact Or.inr ⟨rfl, rfl⟩
  | some files =>
    cases files with
    | array items =>
      cases items with
      | nil => exact Or.inl ⟨[], rfl, rfl, rfl⟩
      | cons item items => exact Or.inr ⟨rfl, rfl⟩
    | object files => exact Or.inl ⟨files, rfl, rfl, rfl⟩
    | _ => exact Or.inr ⟨rfl, rfl⟩

theorem decodes_ofFileMap (name text : Text) :
    (ofFileMap name text).Decodes (Output.document? text) (Json.isFileMap name)
      (Json.byFile name) := by
  have hfile : ∀ file : Text × Json,
      ((Output.fileRecords? name file.2).map fun records => records.map (file.1, ·)) =
        if file.2.isFileContent name then some ((file.2.member name).items.map (file.1, ·))
        else none := by
    intro file
    rw [Output.fileRecords?_eq]
    cases file.2.isFileContent name <;> rfl
  refine ⟨fun hnone => ?_, fun v hv hfits => ?_, fun v hv hfits => ?_⟩
  · rw [ofFileMap, hnone]
    rfl
  · rcases files?_spec name v with ⟨files, hfiles, hmap, hmember⟩ | ⟨hfiles, hmap⟩
    · rw [ofFileMap, hv, Option.bind_some, hfiles, Json.byFile, hmember]
      exact (ofEntries_spec files hfile).1 (hmap ▸ hfits)
    · rw [hmap] at hfits
      cases hfits
  · rcases files?_spec name v with ⟨files, hfiles, hmap, hmember⟩ | ⟨hfiles, hmap⟩
    · rw [ofFileMap, hv, Option.bind_some, hfiles]
      exact (ofEntries_spec files hfile).2 (hmap ▸ hfits)
    · rw [ofFileMap, hv, Option.bind_some, hfiles]
      rfl

theorem decodes_ofEntryList (name text : Text) :
    (ofEntryList name text).Decodes (Output.document? text) (Json.isEntryList name)
      (Json.byEntry name) := by
  have hentry : ∀ entry : Json,
      ((Output.entryRecords? name entry).map fun records => records.map (entry, ·)) =
        if entry.isEntry name then some ((entry.member name).items.map (entry, ·)) else none := by
    intro entry
    rw [Output.entryRecords?_eq]
    cases entry.isEntry name <;> rfl
  refine ⟨fun hnone => ?_, fun v hv hfits => ?_, fun v hv hfits => ?_⟩
  · rw [ofEntryList, hnone]
    rfl
  · rw [ofEntryList, hv]
    cases v with
    | array entries => exact (ofEntries_spec entries hentry).1 hfits
    | _ => cases hfits
  · rw [ofEntryList, hv]
    cases v with
    | array entries => exact (ofEntries_spec entries hentry).2 hfits
    | _ => rfl

/-- Entries that are findings themselves. -/
theorem ofEntries_single (xs : List β) {f : β → Option α} {p : β → Bool} {g : β → α}
    (h : ∀ x, f x = if p x then some (g x) else none) :
    (xs.all p = true → ofEntries (xs.map fun x => (f x).map ([·])) = ⟨xs.map g, true⟩) ∧
      (xs.all p = false → (ofEntries (xs.map fun x => (f x).map ([·]))).intact = false) := by
  have hsingle : ∀ x, (f x).map ([·]) = if p x then some [g x] else none := by
    intro x
    rw [h]
    cases p x <;> rfl
  have hspec := ofEntries_spec xs hsingle
  rwa [← List.map_eq_flatMap] at hspec

end Decoded

theorem Psalm.decodes_decode (output : Text) :
    (decode output).Decodes (Output.document? (Tool.psalm.documentText output)) Tool.psalm.fits
      fun v => v.items.map finding := by
  have hentry : ∀ entry : Json, (entry.members?.map fun _ => finding entry) =
      if entry.isObject then some (finding entry) else none := by
    intro entry
    cases entry <;> rfl
  have hentries (entries : List Json) := Decoded.ofEntries_single entries hentry
  simp only [Option.map_map] at hentries
  refine ⟨fun hnone => ?_, fun v hv hfits => ?_, fun v hv hfits => ?_⟩
  · change Output.document? (Output.withoutBanner _ output) = none at hnone
    rw [decode, hnone]
    rfl
  · change Output.document? (Output.withoutBanner _ output) = some v at hv
    rw [decode, hv]
    cases v with
    | array entries => exact (hentries entries).1 hfits
    | _ => cases hfits
  · change Output.document? (Output.withoutBanner _ output) = some v at hv
    rw [decode, hv]
    cases v with
    | array entries => exact (hentries entries).2 hfits
    | _ => rfl

theorem Biome.decode_of_document {v : Json} {output : Text}
    (hv : Output.document? (Tool.biome.documentText output) = some v) :
    decode output = match v.member "diagnostics" with
      | .array entries => .ofEntries (entries.map fun entry => (diagnostic? entry).map ([·]))
      | _ => .spoiled := by
  change Output.document? (Output.withoutBanner _ output) = some v at hv
  unfold decode
  split
  · next hnone =>
    rw [hv] at hnone
    cases hnone
  · next document hsome =>
    obtain rfl : v = document := Option.some.inj (hv.symm.trans hsome)
    rfl

theorem Biome.decodes_decode (output : Text) :
    (decode output).Decodes (Output.document? (Tool.biome.documentText output)) Tool.biome.fits
      fun v => (v.member "diagnostics").items.map diagnosticAt := by
  have hentries (entries : List Json) := Decoded.ofEntries_single entries diagnostic?_eq
  refine ⟨fun hnone => ?_, fun v hv hfits => ?_, fun v hv hfits => ?_⟩
  · change Output.document? (Output.withoutBanner _ output) = none at hnone
    rw [decode, hnone]
  · rw [decode_of_document hv]
    change isDiagnosticList v = true at hfits
    unfold isDiagnosticList at hfits
    cases hm : v.member "diagnostics" with
    | array entries =>
      rw [hm] at hfits
      exact (hentries entries).1 hfits
    | _ =>
      rw [hm] at hfits
      cases hfits
  · rw [decode_of_document hv]
    change isDiagnosticList v = false at hfits
    unfold isDiagnosticList at hfits
    cases hm : v.member "diagnostics" with
    | array entries =>
      rw [hm] at hfits
      exact (hentries entries).2 hfits
    | _ => rfl

end LintReport
