import LintReport.Proofs.Json.Thinned
import LintReport.Proofs.Json.Tracked

/-!
Values in excised texts. Whole members can be cut out of the text of a document, each with the comma
behind it, from a source up to what ends a source. What is read then is what was read before,
thinned by those members.
-/
namespace LintReport.Json

/-- What stands behind the quote before the name of a source, up to its text. -/
def sourceKey : Text := sourceName ++ [.scalar '"', .scalar ':', .scalar '"']

/-- What stands behind the quote before the name of what ends a source, up to its value. -/
def rulesKey : Text := rulesName ++ [.scalar '"', .scalar ':']

/-- Where something can be cut out: nowhere, behind a comma, or where something was just cut out. -/
inductive Place where
  | nowhere
  | comma
  | cut

namespace Place

/-- The place behind a unit that is not cut out. -/
def behind (c : CodePoint) : Place := if c = .scalar ',' then comma else nowhere

def isCut : Place → Bool
  | cut => true
  | _ => false

theorem isCut_behind (c : CodePoint) : (behind c).isCut = false := by
  unfold behind
  split <;> rfl

/-- Nothing is cut out where an array or an object begins. -/
theorem isCut_of_behind {j : Place} {c : CodePoint} (h : j = behind c ∨ ∃ d, j = behind d) :
    j.isCut = false := by
  rcases h with rfl | ⟨d, rfl⟩ <;> exact isCut_behind _

end Place

/-- A member stands at the start of a text, but for the quote before it, and the rest follows it and
a comma. -/
def IsMember (name s rest : Text) : Prop :=
  ∃ r inner v r', readString s = .ok (name, r) ∧ skipSpace r = .scalar ':' :: inner ∧
    Reads (skipSpace inner) (.value v) r' ∧ skipSpace r' = .scalar ',' :: rest

/-- The second text is the first one, in which members may have been cut out. A cut begins with a
source behind a comma, and goes on until what ends a source. -/
inductive Excised (kept : List Text) : Place → Text → Text → Prop
  | nil {i} (hi : i.isCut = false) : Excised kept i [] []
  | keep {i c s t} (hi : i.isCut = false) (h : Excised kept (.behind c) s t) :
      Excised kept i (c :: s) (c :: t)
  | source {inside rest t} (hmember : IsMember sourceName (sourceKey ++ inside) rest)
      (hname : sourceName ∉ kept) (h : Excised kept .cut (skipSpace rest) t) :
      Excised kept .comma (.scalar '"' :: (sourceKey ++ inside)) t
  | member {name s rest t} (hmember : IsMember name s rest) (hname : name ∉ kept)
      (h : Excised kept .cut (skipSpace rest) t) : Excised kept .cut (.scalar '"' :: s) t
  | rules {s t} (h : Excised kept .nowhere (rulesKey ++ s) t) :
      Excised kept .cut (.scalar '"' :: (rulesKey ++ s)) (.scalar '"' :: t)

section Excised

variable {kept : List Text} {i : Place} {c : CodePoint} {name s t p q r rest : Text}

/-! ### Units -/

theorem excised_refl (s : Text) (hi : i.isCut = false) : Excised kept i s s := by
  induction s generalizing i with
  | nil => exact .nil hi
  | cons c s ih => exact .keep hi (ih (Place.isCut_behind c))

theorem Excised.append (y : Text) (hi : i.isCut = false) (h : Excised kept (.behind c) s t) :
    Excised kept i (y ++ c :: s) (y ++ c :: t) := by
  induction y generalizing i with
  | nil => exact .keep hi h
  | cons d y ih => exact .keep hi (ih (Place.isCut_behind d))

/-- A cut ends before a member. -/
theorem Excised.of_isCut (h : Excised kept i s t) (hi : i.isCut = true) :
    ∃ t', t = .scalar '"' :: t' := by
  induction h with
  | nil h => exact nomatch h.symm.trans hi
  | keep h => exact nomatch h.symm.trans hi
  | source => cases hi
  | member _ _ _ ih => exact ih rfl
  | rules => exact ⟨_, rfl⟩

theorem tracks_excised : Tracks Place.behind (Excised kept) where
  empty h := by
    cases h
    rfl
  head h := by
    cases h with
    | keep => exact ⟨_, rfl⟩
    | source _ _ h => exact h.of_isCut rfl
    | member _ _ h => exact h.of_isCut rfl
    | rules => exact ⟨_, rfl⟩
  tail hc h := by
    cases h with
    | keep _ h => exact h
    | _ => exact absurd rfl hc

theorem Excised.of_nowhere (h : Excised kept .nowhere (c :: s) q) :
    ∃ t, q = c :: t ∧ Excised kept (.behind c) s t := by
  cases h with
  | keep _ h => exact ⟨_, rfl, h⟩

/-- At a quote, the text goes on or a member is cut out. -/
theorem Excised.of_quote (h : Excised kept i (.scalar '"' :: s) q) :
    (∃ t, q = .scalar '"' :: t ∧ Excised kept .nowhere s t ∧
      (i.isCut = true → ∃ s', s = rulesKey ++ s')) ∨
    ∃ name rest, IsMember name s rest ∧ name ∉ kept ∧ Excised kept .cut (skipSpace rest) q ∧
      (i.isCut = false → name = sourceName ∧ ∃ inside, s = sourceKey ++ inside) := by
  cases h with
  | keep hi h => exact .inl ⟨_, rfl, h, fun hcut => nomatch hi.symm.trans hcut⟩
  | source hmember hname h => exact .inr ⟨_, _, hmember, hname, h, fun _ => ⟨rfl, _, rfl⟩⟩
  | member hmember hname h => exact .inr ⟨_, _, hmember, hname, h, nofun⟩
  | rules h => exact .inl ⟨_, rfl, h, fun _ => ⟨_, rfl⟩⟩

/-! ### Literals -/

/-- The text does not start as the rest of the key of a source does, nor as what follows a name. -/
def Follows (r : Text) : Prop :=
  ∀ c rest, skipSpace r = c :: rest → c ≠ .scalar 's' ∧ c ≠ .scalar ':'

theorem follows_of_skipSpace (h : skipSpace r = c :: rest) (hs : c ≠ .scalar 's')
    (hc : c ≠ .scalar ':') : Follows r := by
  intro d rest' hd
  obtain rfl := (List.cons.inj (hd.symm.trans h)).1
  exact ⟨hs, hc⟩

theorem ne_letter_of_skipSpace (h : skipSpace r = c :: rest) (hc : c ≠ .scalar 's') :
    ∀ rest, r ≠ .scalar 's' :: rest := by
  rintro rest rfl
  rw [skipSpace_of_not_isSpace (by decide)] at h
  exact hc (List.cons.inj h).1.symm

theorem Follows.ne_letter (h : Follows r) : ∀ rest, r ≠ .scalar 's' :: rest := by
  rintro rest rfl
  exact (h _ rest (skipSpace_of_not_isSpace (by decide))).1 rfl

theorem sourceKey_head (s : Text) : ∃ rest, sourceKey ++ s = .scalar 's' :: rest := ⟨_, rfl⟩

theorem readString_sourceKey (s : Text) :
    readString (sourceKey ++ s) = .ok (sourceName, .scalar ':' :: .scalar '"' :: s) := rfl

theorem readString_rulesKey (s : Text) :
    readString (rulesKey ++ s) = .ok (rulesName, .scalar ':' :: s) := rfl

/-- A literal stays as it is, unless it ends where a source begins. -/
theorem Pieces.excised {ps : List Piece} (h : Pieces s ps r) (hr : ∀ rest, r ≠ .scalar 's' :: rest)
    (hi : i.isCut = false) (hst : Excised kept i s t) :
    ∃ r', Pieces t ps r' ∧ Excised kept .nowhere r r' := by
  induction h generalizing i t with
  | @closing r =>
    rcases hst.of_quote with ⟨t, rfl, hrt, -⟩ | ⟨_, _, -, -, -, hsource⟩
    · exact ⟨t, .closing, hrt⟩
    · obtain ⟨-, inside, rfl⟩ := hsource hi
      obtain ⟨rest, hrest⟩ := sourceKey_head inside
      exact absurd hrest (hr rest)
  | numbered hn _ ih =>
    obtain ⟨t, rfl, hafter⟩ := tracks_excised.numbered hn hst
    obtain ⟨r', hpieces, hrest⟩ := ih hr (Place.isCut_behind _) hafter
    exact ⟨r', .numbered hn hpieces, hrest⟩
  | escaped he _ ih =>
    obtain ⟨_, rfl, hescape⟩ := tracks_excised.of_ne_quote (by decide) hst
    obtain ⟨t, rfl, hafter⟩ := hescape.of_nowhere
    obtain ⟨r', hpieces, hrest⟩ := ih hr (Place.isCut_behind _) hafter
    exact ⟨r', .escaped he hpieces, hrest⟩
  | plain hquote hslash hc _ ih =>
    obtain ⟨t, rfl, hafter⟩ := tracks_excised.of_ne_quote hquote hst
    obtain ⟨r', hpieces, hrest⟩ := ih hr (Place.isCut_behind _) hafter
    exact ⟨r', .plain hquote hslash hc hpieces, hrest⟩

theorem readString_excised (h : readString s = .ok (name, r))
    (hr : ∀ rest, r ≠ .scalar 's' :: rest) (hst : Excised kept .nowhere s t) :
    ∃ r', readString t = .ok (name, r') ∧ Excised kept .nowhere r r' := by
  obtain ⟨ps, hpieces, rfl⟩ := readString_eq_ok.mp h
  obtain ⟨r', hpieces', hrest⟩ := hpieces.excised hr rfl hst
  exact ⟨r', readString_eq_ok.mpr ⟨ps, hpieces', rfl⟩, hrest⟩

/-- The name of a member and the colon stay where they are. -/
theorem key_excised {inner : Text} (hn : readString s = .ok (name, r))
    (hc : skipSpace r = .scalar ':' :: inner) (hst : Excised kept .nowhere s t) :
    ∃ r' inner' j, readString t = .ok (name, r') ∧ skipSpace r' = .scalar ':' :: inner' ∧
      Excised kept j (skipSpace inner) (skipSpace inner') := by
  obtain ⟨r', hn', hr⟩ := readString_excised hn (ne_letter_of_skipSpace hc (by decide)) hst
  obtain ⟨inner', hc', hinner⟩ := tracks_excised.of_skipSpace hr hc (by decide)
  obtain ⟨j, hskip, -⟩ := tracks_excised.skipSpace hinner
  exact ⟨r', inner', j, hn', hc', hskip⟩

theorem name_eq_rulesName (hn : readString s = .ok (name, r)) (hs : ∃ s', s = rulesKey ++ s') :
    name = rulesName := by
  obtain ⟨s', rfl⟩ := hs
  cases hn.symm.trans (readString_rulesKey s')
  rfl

/-! ### Members -/

theorem Reads.value_unique {v v' : Json} {r' : Text} (h : Reads s (.value v) r)
    (h' : Reads s (.value v') r') : v = v' ∧ r = r' := by
  have hfound : readValue (2 * s.length) s = .ok (v, r) := h.found _ (by omega)
  have hfound' : readValue (2 * s.length) s = .ok (v', r') := h'.found _ (by omega)
  exact Prod.mk.inj (Except.ok.inj (hfound.symm.trans hfound'))

/-- The member is the one that is read, and a comma follows it. -/
theorem IsMember.unique {name' inner r' : Text} {v : Json} (h : IsMember name s rest)
    (hn : readString s = .ok (name', r)) (hc : skipSpace r = .scalar ':' :: inner)
    (hv : Reads (skipSpace inner) (.value v) r') :
    name = name' ∧ skipSpace r' = .scalar ',' :: rest := by
  obtain ⟨_, _, _, _, hn', hc', hv', hr'⟩ := h
  cases hn.symm.trans hn'
  cases hc.symm.trans hc'
  obtain ⟨-, rfl⟩ := hv.value_unique hv'
  exact ⟨rfl, hr'⟩

/-! ### Values -/

/-- What was read of a text and what is read of it when it is excised. -/
inductive Parsed.Thinned (kept : List Text) (inCut : Bool) : Parsed → Parsed → Prop
  | value {v v' : Json} (h : Json.Thinned kept v v') : Thinned kept inCut (.value v) (.value v')
  | items {vs vs' : List Json} (h : List.Forall₂ (Json.Thinned kept) vs vs') :
      Thinned kept inCut (.items vs) (.items vs')
  | members {ms ms' : List (Text × Json)} (h : ThinnedMembers kept inCut ms ms') :
      Thinned kept inCut (.members ms) (.members ms')

/-- Whenever the text is excised, the same is read, thinned by the members that were cut out. -/
def StaysThinned (kept : List Text) (p : Text) (x : Parsed) (r : Text) : Prop :=
  ∀ ⦃i q⦄, Excised kept i p q →
    ∃ x' r', Reads q x' r' ∧ (∃ j, Excised kept j r r') ∧ x.Thinned kept i.isCut x'

namespace StaysThinned

variable {v : Json} {vs : List Json} {ms : List (Text × Json)} {inner out : Text}

theorem string (h : readString s = .ok (name, r)) (hr : Follows r) :
    StaysThinned kept (.scalar '"' :: s) (.value (.string name)) r := by
  intro i q hq
  rcases hq.of_quote with ⟨t, rfl, hst, -⟩ | ⟨_, _, ⟨_, _, _, _, hn, hc, -⟩, -⟩
  · obtain ⟨r', hstring, hrest⟩ := readString_excised h hr.ne_letter hst
    exact ⟨_, r', .string hstring, ⟨_, hrest⟩, .value (.same _)⟩
  · -- it was the name of a member, and a colon follows
    cases h.symm.trans hn
    exact absurd rfl (hr _ _ hc).2

theorem emptyArray (h : skipSpace s = .scalar ']' :: r) :
    StaysThinned kept (.scalar '[' :: s) (.value (.array [])) r := by
  intro i q hq
  obtain ⟨t, rfl, hst⟩ := tracks_excised.of_ne_quote (by decide) hq
  obtain ⟨r', ht, hrest⟩ := tracks_excised.of_skipSpace hst h (by decide)
  exact ⟨_, r', .emptyArray ht, ⟨_, hrest⟩, .value (.same _)⟩

theorem array (hs : ∀ rest, skipSpace s ≠ .scalar ']' :: rest)
    (ih : StaysThinned kept (skipSpace s) (.items vs) r) :
    StaysThinned kept (.scalar '[' :: s) (.value (.array vs)) r := by
  intro i q hq
  obtain ⟨t, rfl, hst⟩ := tracks_excised.of_ne_quote (by decide) hq
  obtain ⟨j, hskip, -⟩ := tracks_excised.skipSpace hst
  obtain ⟨x', r', hreads, hrest, hx⟩ := ih hskip
  have hopened := tracks_excised.ne_cons hskip hs
  cases hx with
  | items hvs => exact ⟨_, r', .array hopened hreads, hrest, .value (.array hvs)⟩

theorem emptyObject (h : skipSpace s = .scalar '}' :: r) :
    StaysThinned kept (.scalar '{' :: s) (.value (.object [])) r := by
  intro i q hq
  obtain ⟨t, rfl, hst⟩ := tracks_excised.of_ne_quote (by decide) hq
  obtain ⟨r', ht, hrest⟩ := tracks_excised.of_skipSpace hst h (by decide)
  exact ⟨_, r', .emptyObject ht, ⟨_, hrest⟩, .value (.same _)⟩

theorem object (hs : ∀ rest, skipSpace s ≠ .scalar '}' :: rest)
    (ih : StaysThinned kept (skipSpace s) (.members ms) r) :
    StaysThinned kept (.scalar '{' :: s) (.value (.object (Table.ofList ms))) r := by
  intro i q hq
  obtain ⟨t, rfl, hst⟩ := tracks_excised.of_ne_quote (by decide) hq
  obtain ⟨j, hskip, hj⟩ := tracks_excised.skipSpace hst
  obtain ⟨x', r', hreads, hrest, hx⟩ := ih hskip
  have hopened := tracks_excised.ne_cons hskip hs
  rw [Place.isCut_of_behind hj] at hx
  cases hx with
  | members hms => exact ⟨_, r', .object hopened hreads, hrest, .value hms.object⟩

theorem word (hs : opens s = false) (h : readWord? s = some (v, r)) :
    StaysThinned kept s (.value v) r := by
  intro i q hq
  obtain ⟨r', j, hreads, hrest⟩ := tracks_excised.word hq hs h
  exact ⟨_, r', hreads, ⟨j, hrest⟩, .value (.same _)⟩

theorem number (hs : opens s = false) (hw : readWord? s = none)
    (h : readNumber s = .ok (v, r)) : StaysThinned kept s (.value v) r := by
  intro i q hq
  obtain ⟨r', j, hreads, hrest⟩ := tracks_excised.number hq hs hw h
  exact ⟨_, r', hreads, ⟨j, hrest⟩, .value (.same _)⟩

/-- A value and the mark behind it. -/
theorem mark (ih : StaysThinned kept p (.value v) r) (hr : skipSpace r = c :: rest)
    (hc : c ≠ .scalar '"') (hq : Excised kept i p q) :
    ∃ v' r' rest', Reads q (.value v') r' ∧ skipSpace r' = c :: rest' ∧
      Excised kept (.behind c) rest rest' ∧ Thinned kept v v' := by
  obtain ⟨x', r', hreads, ⟨_, hafter⟩, hx⟩ := ih hq
  obtain ⟨rest', hr', hrest⟩ := tracks_excised.of_skipSpace hafter hr hc
  cases hx with
  | value hx => exact ⟨_, r', rest', hreads, hr', hrest, hx⟩

theorem lastItem (ih : StaysThinned kept s (.value v) r)
    (hr : skipSpace r = .scalar ']' :: rest) : StaysThinned kept s (.items [v]) rest := by
  intro i q hq
  obtain ⟨v', r', rest', hv', hr', hrest, hx⟩ := ih.mark hr (by decide) hq
  exact ⟨_, rest', .lastItem hv' hr', ⟨_, hrest⟩, .items (.cons hx .nil)⟩

theorem item (ihv : StaysThinned kept s (.value v) r) (hr : skipSpace r = .scalar ',' :: rest)
    (ihvs : StaysThinned kept (skipSpace rest) (.items vs) out) :
    StaysThinned kept s (.items (v :: vs)) out := by
  intro i q hq
  obtain ⟨v', r', rest', hv', hr', hrest, hx⟩ := ihv.mark hr (by decide) hq
  obtain ⟨_, hskip, -⟩ := tracks_excised.skipSpace hrest
  obtain ⟨xs', out', hvs', hlast, hxs⟩ := ihvs hskip
  cases hxs with
  | items hxs => exact ⟨_, out', .item hv' hr' hvs', hlast, .items (.cons hx hxs)⟩

theorem lastMember {r' : Text} (hn : readString s = .ok (name, r))
    (hc : skipSpace r = .scalar ':' :: inner) (hv : Reads (skipSpace inner) (.value v) r')
    (ih : StaysThinned kept (skipSpace inner) (.value v) r')
    (hr : skipSpace r' = .scalar '}' :: rest) :
    StaysThinned kept (.scalar '"' :: s) (.members [(name, v)]) rest := by
  intro i q hq
  rcases hq.of_quote with ⟨t, rfl, hst, hrules⟩ | ⟨_, _, hmember, -⟩
  · obtain ⟨r₁, inner', _, hn', hc', hskip⟩ := key_excised hn hc hst
    obtain ⟨v', r₂, rest', hv', hr', hrest, hx⟩ := ih.mark hr (by decide) hskip
    exact ⟨_, rest', .lastMember hn' hc' hv' hr', ⟨_, hrest⟩,
      .members (.keep (name_eq_rulesName hn ∘ hrules) hx .nil)⟩
  · -- another member follows one that is cut out
    cases (hmember.unique hn hc hv).2.symm.trans hr

/-- A member stays and the cut, if there was one, is over, or the member is part of the cut. -/
theorem member {r' : Text} (hn : readString s = .ok (name, r))
    (hc : skipSpace r = .scalar ':' :: inner) (hv : Reads (skipSpace inner) (.value v) r')
    (ihv : StaysThinned kept (skipSpace inner) (.value v) r')
    (hr : skipSpace r' = .scalar ',' :: rest)
    (ihms : StaysThinned kept (skipSpace rest) (.members ms) out) :
    StaysThinned kept (.scalar '"' :: s) (.members ((name, v) :: ms)) out := by
  intro i q hq
  rcases hq.of_quote with ⟨t, rfl, hst, hrules⟩ | ⟨_, _, hmember, hkept, hleft, hsource⟩
  · obtain ⟨r₁, inner', _, hn', hc', hskip⟩ := key_excised hn hc hst
    obtain ⟨v', r₂, rest', hv', hr', hrest, hx⟩ := ihv.mark hr (by decide) hskip
    obtain ⟨j, hskip', hj⟩ := tracks_excised.skipSpace hrest
    obtain ⟨xs', out', hms', hlast, hxs⟩ := ihms hskip'
    rw [Place.isCut_of_behind hj] at hxs
    cases hxs with
    | members hxs =>
      exact ⟨_, out', .member hn' hc' hv' hr' hms', hlast,
        .members (.keep (name_eq_rulesName hn ∘ hrules) hx hxs)⟩
  · obtain ⟨rfl, hcomma⟩ := hmember.unique hn hc hv
    cases hcomma.symm.trans hr
    obtain ⟨xs', out', hms', hlast, hxs⟩ := ihms hleft
    cases hxs with
    | members hxs =>
      exact ⟨_, out', hms', hlast, .members (.leave v (fun hi => (hsource hi).1) hkept hxs)⟩

end StaysThinned

/-- In an excised text the same is read, thinned by the members that were cut out. -/
theorem Reads.excised {x : Parsed} (h : Reads p x r) (hr : Follows r) :
    StaysThinned kept p x r := by
  -- What ends an item or a member is neither a colon nor the letter that a source begins with.
  induction h with
  | string h => exact StaysThinned.string h hr
  | emptyArray h => exact StaysThinned.emptyArray h
  | array hs _ ih => exact StaysThinned.array hs (ih hr)
  | emptyObject h => exact StaysThinned.emptyObject h
  | object hs _ ih => exact StaysThinned.object hs (ih hr)
  | word hs h => exact StaysThinned.word hs h
  | number hs hw h => exact StaysThinned.number hs hw h
  | lastItem _ hmark ih =>
    have hv := ih (follows_of_skipSpace hmark (by decide) (by decide))
    exact StaysThinned.lastItem hv hmark
  | item _ hmark _ ihv ihvs =>
    have hv := ihv (follows_of_skipSpace hmark (by decide) (by decide))
    exact StaysThinned.item hv hmark (ihvs hr)
  | lastMember hn hc hread hmark ih =>
    have hv := ih (follows_of_skipSpace hmark (by decide) (by decide))
    exact StaysThinned.lastMember hn hc hread hv hmark
  | member hn hc hread hmark _ ihv ihms =>
    have hv := ihv (follows_of_skipSpace hmark (by decide) (by decide))
    exact StaysThinned.member hn hc hread hv hmark (ihms hr)

/-- What a text spells, it spells when it is excised, but for the members that were cut out. -/
theorem read_excised {v : Json} (h : Excised kept i p q) (hp : read p = .ok v) :
    ∃ v', read q = .ok v' ∧ Thinned kept v v' := by
  obtain ⟨hmark, r, hreads, hr⟩ := read_eq_ok.mp hp
  obtain ⟨j, hskip, -⟩ := tracks_excised.skipSpace h
  have hfollows : Follows r := fun c rest hc => nomatch hr.symm.trans hc
  obtain ⟨x', r', hreads', ⟨_, hrest⟩, hx⟩ := hreads.excised hfollows hskip
  obtain ⟨_, hend, -⟩ := tracks_excised.skipSpace hrest
  rw [hr] at hend
  cases hx with
  | value hx =>
    have hmark' : hasMark q = false := (tracks_excised.hasMark_eq h).trans hmark
    exact ⟨_, read_eq_ok.mpr ⟨hmark', r', hreads', tracks_excised.empty hend⟩, hx⟩

end Excised

end LintReport.Json
