import LintReport.Proofs.Finding.Excised
import LintReport.Proofs.Finding.Logged
import LintReport.Proofs.Json.Mapped
import LintReport.Proofs.Path.Relative

/-!
Findings and the place of the project. Where the project lies shows in the full paths of the issues
and nowhere else. If a tool finds the same below another directory, the issues are the same, their
fingerprints included, or the same fault comes out, or there are no issues either way.
-/
namespace LintReport

open Output (document? entryRecords? fileRecords? files? items?)

/-! ### Paths -/

namespace Text

/-- A path below one directory, moved to the same place below another. Other paths stay. -/
def moved (directory directory' path : Text) : Text :=
  ((after? directory.opening path).map (directory'.opening ++ ·)).getD path

theorem moved_append (directory directory' rest : Text) :
    moved directory directory' (directory.opening ++ rest) = directory'.opening ++ rest := by
  rw [moved, after?_eq_some.mpr rfl]
  rfl

theorem moved_nil (directory directory' : Text) : moved directory directory' [] = [] := by
  have hnone : after? directory.opening [] = none :=
    after?_eq_none.mpr fun h => opening_ne_nil directory (List.prefix_nil.mp h)
  rw [moved, hnone]
  rfl

end Text

/-- A path below a directory, or none at all. -/
def Json.LiesBelow (directory : Text) (v : Json) : Prop :=
  v.isBlank = true ∨ ∃ rest, v = .string (directory.opening ++ rest)

namespace Json.LiesBelow

variable {directory : Text} {v : Json}

/-- The path moves with its directory, and what can be seen from there of it stays. -/
theorem shownOrNothing_moved (h : v.LiesBelow directory) (directory' : Text) :
    (v.mapText (Text.moved directory directory')).shownOrNothing =
        Text.moved directory directory' v.shownOrNothing ∧
      relativePath directory' (Text.moved directory directory' v.shownOrNothing) =
        relativePath directory v.shownOrNothing := by
  rcases h with hblank | ⟨rest, rfl⟩
  · have hshown : v.shownOrNothing = [] := if_pos hblank
    have hstays : v.mapText (Text.moved directory directory') = v := by
      cases v with
      | string s =>
        obtain rfl : s = [] := List.isEmpty_iff.mp hblank
        exact congrArg Json.string (Text.moved_nil _ _)
      | _ => rfl
    rw [hstays, hshown, Text.moved_nil, relativePath_nil, relativePath_nil]
    exact ⟨rfl, rfl⟩
  · rw [mapText, shownOrNothing_string, shownOrNothing_string, Text.moved_append,
      relativePath_append, relativePath_append]
    exact ⟨rfl, rfl⟩

end Json.LiesBelow

/-! ### Findings and their issues -/

/-- An issue whose full path moved. -/
def Issue.moved (move : Text → Text) (issue : Issue) : Issue :=
  { issue with location := { issue.location with fullPath := move issue.location.fullPath } }

/-- The full path is no part of what an issue is recognised by. -/
theorem Issue.sealed_moved (move : Text → Text) (issue : Issue) :
    (issue.moved move).sealed = issue.sealed.map (Issue.moved move) := by
  have hfingerprint : (issue.moved move).fingerprint = issue.fingerprint := rfl
  rw [Issue.sealed, Issue.sealed, hfingerprint]
  by_cases h : issue.fingerprint = []
  · rw [if_pos h, if_pos h]
    change fingerprintOf issue.location.path issue.location.position issue.description >>= _ = _
    cases fingerprintOf issue.location.path issue.location.position issue.description <;> rfl
  · rw [if_neg h, if_neg h]
    rfl

/-- An outcome in which the full paths of the issues moved, or a failure of another output. -/
def Outcome.moved (move : Text → Text) (output : Text) : Outcome → Outcome
  | ok issues => ok (issues.map (Issue.moved move))
  | failed _ => failed output

namespace Finding

/-- A finding whose path moved. -/
def moved (move : Text → Text) (f : Finding) : Finding := { f with path := f.path.mapText move }

theorem toIssue_moved {directory : Text} {f : Finding} (h : f.path.LiesBelow directory)
    (directory' : Text) :
    (f.moved (Text.moved directory directory')).toIssue directory' =
      (f.toIssue directory).map (Issue.moved (Text.moved directory directory')) := by
  obtain ⟨hshown, hrelative⟩ := h.shownOrNothing_moved directory'
  have hposition : (f.moved (Text.moved directory directory')).position = f.position := rfl
  rw [toIssue, toIssue, hposition]
  cases f.position with
  | error fault => rfl
  | ok position =>
    dsimp only [bind, Except.bind]
    rw [← Issue.sealed_moved]
    dsimp only [moved, Issue.moved]
    rw [hshown, hrelative]
    rfl

end Finding

namespace Decoded

theorem findingOutcome_moved {directory : Text} {d : Decoded Finding}
    (h : ∀ f ∈ d.items, f.path.LiesBelow directory) (directory' output output' : Text) :
    (d.map (Finding.moved (Text.moved directory directory'))).findingOutcome directory' output' =
      (d.findingOutcome directory output).map
        (Outcome.moved (Text.moved directory directory') output') := by
  have hissues := mapM_eq_map_mapM fun f hf => Finding.toIssue_moved (h f hf) directory'
  rw [findingOutcome_eq, findingOutcome_eq, map, List.mapM_map]
  rw [Function.comp_def, hissues]
  cases d.items.mapM (Finding.toIssue directory) with
  | error fault => rfl
  | ok issues =>
    cases hintact : d.intact <;> rfl

/-! ### Documents -/

/-- What the records of an entry are kept with may be changed before or after they are decoded. -/
theorem ofEntries_tagged {α β γ : Type} (change : α → α) (tag : γ → α)
    (records : γ → Option (List β)) (xs : List γ) :
    ofEntries (xs.map fun x => (records x).map fun found => found.map (change (tag x), ·)) =
      (ofEntries (xs.map fun x => (records x).map fun found => found.map (tag x, ·))).map
        fun record => (change record.1, record.2) := by
  rw [map_ofEntries, List.map_map]
  refine congrArg ofEntries (List.map_congr_left fun x _ => ?_)
  simp only [Function.comp_apply, Option.map_map]
  cases records x with
  | none => rfl
  | some found =>
    rw [Option.map_some, Option.map_some, Function.comp_apply, List.map_map]
    rfl

variable {name text text' : Text} {move : Text → Text}

theorem files?_mapNames (move : Text → Text) (v : Json) :
    files? (v.mapMember "files" (Json.mapNames move)) =
      (files? v).map (List.map fun file => (move file.1, file.2)) := by
  unfold files?
  rw [Json.member?_mapMember, if_pos rfl]
  cases v.member? "files" with
  | none => rfl
  | some found =>
    cases found with
    | array items => cases items <;> rfl
    | _ => rfl

theorem ofFileMap_moved
    (h : document? text' = (document? text).map (Json.mapMember "files" (Json.mapNames move))) :
    ofFileMap name text' = (ofFileMap name text).map fun record => (move record.1, record.2) := by
  have hfiles : (document? text').bind files? =
      ((document? text).bind files?).map (List.map fun file => (move file.1, file.2)) := by
    rw [h]
    cases document? text with
    | none => rfl
    | some v => exact files?_mapNames move v
  unfold ofFileMap
  rw [hfiles]
  cases (document? text).bind files? with
  | none => rfl
  | some files =>
    dsimp only [Option.map_some]
    rw [List.map_map]
    exact ofEntries_tagged move Prod.fst (fun file => fileRecords? name file.2) files

theorem items?_mapItems {change : Json → Json}
    (h : document? text' = (document? text).map (Json.mapItems change)) :
    items? (document? text') = (items? (document? text)).map (List.map change) := by
  rw [h]
  cases document? text with
  | none => rfl
  | some v => cases v <;> rfl

theorem ofEntryList_mapped {change : Json → Json} (name : Text)
    (h : document? text' = (document? text).map (Json.mapItems change))
    (hrecords : ∀ entry, entryRecords? name (change entry) = entryRecords? name entry) :
    ofEntryList name text' =
      (ofEntryList name text).map fun record => (change record.1, record.2) := by
  unfold ofEntryList
  rw [items?_mapItems h]
  cases items? (document? text) with
  | none => rfl
  | some entries =>
    dsimp only [Option.map_some]
    rw [List.map_map]
    simp only [Function.comp_def, hrecords]
    exact ofEntries_tagged change id (entryRecords? name) entries

/-- Findings that only take their path from what their records were kept with. -/
theorem map_moved {α : Type} {d d' : Decoded (α × Json)} {change : α → α}
    (h : d' = d.map fun record => (change record.1, record.2)) {build : α × Json → Finding}
    (hbuild : ∀ x record, build (change x, record) = (build (x, record)).moved move) :
    d'.map build = (d.map build).map (Finding.moved move) := by
  rw [h, map_map, map_map]
  exact congrArg (map · d) (funext fun record => hbuild record.1 record.2)

end Decoded

theorem Output.entryRecords?_mapMember {name path : Text} (h : name ≠ path) (f : Json → Json)
    (entry : Json) : entryRecords? name (entry.mapMember path f) = entryRecords? name entry := by
  have hmember := Json.member_mapMember_of_ne h f entry
  cases entry with
  | object members => exact congrArg records? hmember
  | _ => rfl

namespace Tool

open Json (mapItems mapMember mapNames mapText)

/-- A document of a tool in which the paths of files moved, wherever the tool puts them. -/
def moved (move : Text → Text) : Tool → Json → Json
  | psalm => mapItems (mapMember "file_path" (mapText move))
  | esLint => mapItems (mapMember "filePath" (mapText move))
  | styleLint => mapItems (mapMember "source" (mapText move))
  | phpStan | phpCs | ecs => mapMember "files" (mapNames move)
  | biome => mapMember "diagnostics" (mapItems
      (mapMember "location" (mapMember "path" (mapMember "file" (mapText move)))))

variable {t : Tool} {move : Text → Text} {output output' : Text}

theorem psalm_finding_moved (move : Text → Text) (entry : Json) :
    Psalm.finding (entry.mapMember "file_path" (mapText move)) =
      (Psalm.finding entry).moved move := by
  have hmember {name : Text} (hname : name ≠ "file_path") :=
    Json.member_mapMember_of_ne hname (mapText move) entry
  simp only [Psalm.finding, Psalm.severity, Finding.moved,
    Json.member_mapMember_self (f := mapText move) rfl]
  rw [hmember (by decide), hmember (by decide), hmember (by decide), hmember (by decide),
    hmember (by decide), hmember (by decide), hmember (by decide)]

theorem psalm_decode_moved
    (h : document? (psalm.documentText output') =
      (document? (psalm.documentText output)).map (psalm.moved move)) :
    Psalm.decode output' = (Psalm.decode output).map (Finding.moved move) := by
  have hitems : items? (document? (Output.withoutBanner "[" output')) =
      (items? (document? (Output.withoutBanner "[" output))).map _ := Decoded.items?_mapItems h
  unfold Psalm.decode
  rw [hitems]
  cases items? (document? (Output.withoutBanner "[" output)) with
  | none => rfl
  | some entries =>
    dsimp only [Option.map_some]
    rw [Decoded.map_ofEntries, List.map_map, List.map_map]
    refine congrArg Decoded.ofEntries (List.map_congr_left fun entry _ => ?_)
    cases entry with
    | object members => exact congrArg (some [·]) (psalm_finding_moved move (.object members))
    | _ => rfl

/-- Where the paths of a document moved, those of its findings did, and nothing else changed. -/
theorem findings_moved (hecs : t ≠ .ecs) (hbiome : t ≠ .biome) (exitCode exitCode' : Int)
    (h : document? (t.documentText output') =
      (document? (t.documentText output)).map (t.moved move)) :
    t.findings exitCode' output' = (t.findings exitCode output).map (Finding.moved move) := by
  cases t with
  | ecs => exact absurd rfl hecs
  | biome => exact absurd rfl hbiome
  | psalm => exact psalm_decode_moved h
  | phpStan | phpCs => exact Decoded.map_moved (Decoded.ofFileMap_moved h) fun file message => rfl
  | esLint =>
    have hentries := Decoded.ofEntryList_mapped "messages" h
      (Output.entryRecords?_mapMember (by decide) _)
    refine Decoded.map_moved hentries fun entry message => ?_
    simp only [EsLint.finding, Finding.moved, Json.member_mapMember_self (f := mapText move) rfl]
  | styleLint =>
    have hentries := Decoded.ofEntryList_mapped "warnings" h
      (Output.entryRecords?_mapMember (by decide) _)
    refine Decoded.map_moved hentries fun entry warning => ?_
    simp only [StyleLint.finding, Finding.moved, Json.member_mapMember_self (f := mapText move) rfl]

/-- No issue depends on the place of the project, but for its full path. If two outputs say the same
about the same files, one of them with the paths below one directory and the other below another,
then the issues as they are seen from these directories are the same in everything else, or the same
fault comes out, or both outputs amount to nothing but themselves. -/
theorem outcome_moved (hecs : t ≠ .ecs) (hbiome : t ≠ .biome) {directory directory' : Text}
    {exitCode exitCode' : Int}
    (hdocument : document? (t.documentText output') =
      (document? (t.documentText output)).map (t.moved (Text.moved directory directory')))
    (hbelow : ∀ f ∈ (t.findings exitCode output).items, f.path.LiesBelow directory) :
    (t.findings exitCode' output').findingOutcome directory' output' =
        ((t.findings exitCode output).findingOutcome directory output).map
          (Outcome.moved (Text.moved directory directory') output') ∧
      ∀ s s' workingDir workingDir' sourceDir sourceDir',
        workingDir.toText = directory → workingDir'.toText = directory' →
        t.outcome s' workingDir' sourceDir' exitCode' output' =
          Outcome.moved (Text.moved directory directory') output' <$>
            t.outcome s workingDir sourceDir exitCode output := by
  have hmoved := Decoded.findingOutcome_moved hbelow directory' output output'
  rw [← findings_moved hecs hbiome exitCode exitCode' hdocument] at hmoved
  refine ⟨hmoved, ?_⟩
  rintro s s' workingDir workingDir' sourceDir sourceDir' rfl rfl
  rw [outcome_eq hecs (absurd · hbiome), outcome_eq hecs (absurd · hbiome), hmoved]
  cases (t.findings exitCode output).findingOutcome workingDir.toText output <;> rfl

/-- A project is moved from one directory to another one, which is spelled with a slash behind it.
The finding in a file below it keeps its fingerprint. -/
theorem outcome_moved_psalm :
    ∃ output output' issue issue',
      (psalm.findings 0 output).items =
        [Psalm.finding (.object [("file_path", .string "/a/x")])] ∧
      (psalm.findings 0 output').items =
        [Psalm.finding (.object [("file_path", .string "/b/x")])] ∧
      Psalm.outcome "/a" output = .ok (.ok [issue]) ∧
      Psalm.outcome "/b/" output' = .ok (.ok [issue']) ∧
      issue.location.fullPath = "/a/x" ∧ issue'.location.fullPath = "/b/x" ∧
      issue.location.path = "x" ∧ issue'.location.path = "x" ∧
      issue'.fingerprint = issue.fingerprint := by
  let before : List Char := ['[', '{', '"', 'f', 'i', 'l', 'e', '_', 'p', 'a', 't', 'h', '"', ':']
  let output := Text.ofChars (before ++ ['"', '/', 'a', '/', 'x', '"', '}', ']'])
  let output' := Text.ofChars (before ++ ['"', '/', 'b', '/', 'x', '"', '}', ']'])
  let f := Psalm.finding (.object [("file_path", .string "/a/x")])
  have hfindings : psalm.findings 0 output = ⟨[f], true⟩ := rfl
  have hbelow : ∀ g ∈ (psalm.findings 0 output).items, g.path.LiesBelow "/a" := by
    rw [hfindings]
    exact List.forall_mem_singleton.mpr (Or.inr ⟨"x", rfl⟩)
  have hissue : Psalm.outcome "/a" output = .ok (.ok [f.tolerated "/a"]) := by
    change (psalm.findings 0 output).findingOutcome _ _ = _
    rw [hfindings]
    refine Decoded.findingOutcome_of_harmless ?_ ?_ output
    · exact List.forall_mem_singleton.mpr
        (Finding.forall_parts.mpr ⟨.null, .null, .null, .null⟩)
    · exact List.forall_mem_singleton.mpr ⟨by decide, by decide⟩
  have hmoved := (@outcome_moved psalm output output' nofun nofun "/a" "/b/" 0 0 rfl hbelow).1
  change _ = (Psalm.outcome "/a" output).map _ at hmoved
  rw [hissue] at hmoved
  exact ⟨output, output', _, _, rfl, rfl, hissue, hmoved, rfl, by decide, by decide, by decide, rfl⟩

end Tool

end LintReport
