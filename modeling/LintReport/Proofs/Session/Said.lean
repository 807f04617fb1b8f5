import LintReport.Proofs.Finding.Tolerated
import LintReport.Proofs.Json.Ascii
import LintReport.Proofs.Session.Kept

/-!
What is said and what is shown of it. A record that is shown as JSON is one line of ASCII, from
which its texts are read back. Most actions only add records to those that were said and their lines
to what was shown, each as the diagnostics of the session have it; if all parts of an action do no
more than that, the action does no more.
-/
namespace LintReport

/-! ### Records -/

theorem Level.isSurrogate_of_mem_name {level : Level} {c : CodePoint} (h : c ∈ level.name) :
    c.isSurrogate = false := by
  have hnames : ∀ n ∈ Level.names, ∀ c ∈ n.1, c.isSurrogate = false := by decide
  unfold Level.name at h
  split at h
  · next hfound => exact hnames _ (List.mem_of_find?_eq_some hfound) c h
  · rcases List.mem_append.mp h with h | h
    · exact Text.isSurrogate_of_mem_ofChars h
    · exact Text.isSurrogate_of_mem_ofInt h

namespace Record

/-- A text with its name, if there is one. -/
def named (name : Text) (t : Option Text) : List (Text × Text) := t.toList.map (name, ·)

/-- The texts of a record with their names. -/
def texts (r : Record) : List (Text × Text) :=
  ("ts", r.time) :: ("level", r.level.name) :: ("logger", r.logger) :: ("msg", r.message) ::
    (named "stage" r.stage ++ named "exc" r.error)

/-- The record as JSON, on a line. -/
def line (r : Record) : Text := r.toJson.compact .ascii

theorem toJson_eq (r : Record) : r.toJson = .ofTexts r.texts := by
  obtain ⟨level, logger, message, stage, error, time⟩ := r
  cases stage <;> cases error <;> rfl

theorem isGraphic_line (r : Record) : Json.IsGraphic r.line := by
  rw [line, toJson_eq]
  exact Json.isGraphic_compact_ofTexts _

/-- Every record is read back from its line. -/
theorem read_line (r : Record) : Json.read r.line = .ok (.ofTexts (Json.pairedTexts r.texts)) := by
  rw [line, toJson_eq]
  refine Json.read_compact_ofTexts ?_
  obtain ⟨level, logger, message, stage, error, time⟩ := r
  cases stage <;> cases error <;>
    simp only [texts, named, Json.pairedTexts, Option.toList, List.map_cons, List.map_nil,
      List.cons_append, List.nil_append] <;> decide

/-- Without halves of surrogate pairs, the message and the stage are read back as they were. -/
theorem texts_paired {r : Record} (herror : r.error = none)
    (hmessage : ∀ c ∈ r.message, c.isSurrogate = false)
    (hstage : ∀ t ∈ r.stage, ∀ c ∈ t, c.isSurrogate = false) :
    Json.pairedTexts r.texts =
      (("ts", r.time.paired) :: ("level", r.level.name) :: ("logger", r.logger.paired) ::
        ("msg", r.message) :: named "stage" r.stage : List (Text × Text)) := by
  have hlevel : r.level.name.paired = r.level.name :=
    Text.paired_of_whole fun c hc => Level.isSurrogate_of_mem_name hc
  have hmessage : r.message.paired = r.message := Text.paired_of_whole hmessage
  obtain ⟨level, logger, message, stage, error, time⟩ := r
  subst herror
  cases stage with
  | none =>
    simp only [texts, named, Json.pairedTexts, Option.toList, List.map_cons, List.map_nil,
      List.append_nil, hlevel, hmessage]
    rfl
  | some t =>
    have ht : t.paired = t := Text.paired_of_whole (hstage t rfl)
    simp only [texts, named, Json.pairedTexts, Option.toList, List.map_cons, List.map_nil,
      List.cons_append, List.nil_append, hlevel, hmessage, ht]
    rfl

end Record

namespace Diagnostics

variable {d : Diagnostics}

theorem render_json (hd : d.json = true) {r : Record} (h : d.shows r.level = true) :
    d.render r = r.line ++ [.scalar '\n'] := by
  rw [render, if_pos h, if_pos hd, Record.line]

/-- What is shown of some records as JSON are the lines of those that pass the threshold. -/
theorem flatMap_render (hd : d.json = true) (rs : List Record) :
    rs.flatMap d.render =
      ((rs.filter (d.shows ·.level)).map Record.line).flatMap (· ++ [.scalar '\n']) := by
  induction rs with
  | nil => rfl
  | cons r rs ih =>
    rw [List.flatMap_cons, List.filter_cons, ih]
    split
    · next h => rw [render_json hd h, List.map_cons, List.flatMap_cons]
    · next h => rw [render, if_neg h, List.nil_append]

end Diagnostics

/-! ### Sessions that say more -/

/-- One session comes from another by saying some records, all without errors in them. -/
structure Session.Tells (σ τ : Session) (said : List Record) : Prop where
  records_eq : τ.records = σ.records ++ said
  shown_eq : τ.shown = σ.shown ++ said.flatMap σ.diagnostics.render
  diagnostics_eq : τ.diagnostics = σ.diagnostics
  workspace_eq : τ.workspace = σ.workspace
  plain : ∀ r ∈ said, r.error = none

namespace Session

variable {σ τ ρ : Session} {said said' : List Record}

/-- Where a session goes and which commands it runs is not said. -/
theorem tells_nil (hrecords : τ.records = σ.records) (hshown : τ.shown = σ.shown)
    (hdiagnostics : τ.diagnostics = σ.diagnostics) (hworkspace : τ.workspace = σ.workspace) :
    σ.Tells τ [] :=
  ⟨by rw [hrecords, List.append_nil], by rw [hshown, List.flatMap_nil, List.append_nil],
    hdiagnostics, hworkspace, nofun⟩

theorem Tells.trans (h : σ.Tells τ said) (h' : τ.Tells ρ said') :
    σ.Tells ρ (said ++ said') where
  records_eq := by rw [h'.records_eq, h.records_eq, List.append_assoc]
  shown_eq := by
    rw [h'.shown_eq, h.shown_eq, h.diagnostics_eq, List.flatMap_append, List.append_assoc]
  diagnostics_eq := h'.diagnostics_eq.trans h.diagnostics_eq
  workspace_eq := h'.workspace_eq.trans h.workspace_eq
  plain := List.forall_mem_append.mpr ⟨h.plain, h'.plain⟩

/-- One session comes from another by saying more. -/
def SaidMore (σ τ : Session) : Prop := ∃ said, σ.Tells τ said

theorem lasting_saidMore : Session.Lasting Session.SaidMore where
  refl _ := ⟨[], tells_nil rfl rfl rfl rfl⟩
  trans := fun ⟨_, h⟩ ⟨_, h'⟩ => ⟨_, h.trans h'⟩

theorem durable_saidMore : Session.Durable Session.SaidMore := by
  have hsay (r : Record) (hr : r.error = none) : Action.Holds Session.SaidMore (Action.say r) := by
    intro σ
    have hrecord : ∀ x ∈ [r], x.error = none := fun x hx => List.mem_singleton.mp hx ▸ hr
    exact ⟨[r], rfl, by rw [List.flatMap_singleton]; rfl, rfl, rfl, hrecord⟩
  refine { lasting_saidMore with
    holds_say := hsay
    holds_execute := fun command limit directory => ?_ }
  refine lasting_saidMore.holds_bind (hsay _ rfl) fun _ => ?_
  intro σ
  change σ.SaidMore ((Action.ofExcept (Command.resultIn σ.workspace command limit)).after
    { σ with calls := _ })
  cases Command.resultIn σ.workspace command limit <;> exact ⟨[], tells_nil rfl rfl rfl rfl⟩

theorem saidMore_changeDirectory (path : Text) :
    Action.Holds Session.SaidMore (Action.changeDirectory path) := by
  intro σ
  obtain ⟨directory, hafter⟩ := Action.after_changeDirectory path σ
  rw [hafter]
  exact ⟨[], tells_nil rfl rfl rfl rfl⟩

end Session

end LintReport
