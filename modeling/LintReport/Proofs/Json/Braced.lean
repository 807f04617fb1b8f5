import LintReport.Proofs.Json.Excised

/-!
Members in braces. If a text from a source up to a quote reads as an object when braces are put
around it, it consists of whole members, wherever it stands. So it can be cut out before a comma,
unless one of them is kept.
-/
namespace LintReport.Json

/-- Two texts that are the same up to a quote, and in the first one a brace is all that follows. -/
def Braced (after p q : Text) : Prop :=
  ∃ y, p = y ++ [.scalar '"', .scalar '}'] ∧ q = y ++ .scalar '"' :: after

section Braced

variable {after p q r s t : Text} {c : CodePoint}

theorem Braced.of_cons (h : Braced after (c :: s) q) :
    (∃ t, q = c :: t ∧ Braced after s t) ∨
      c = .scalar '"' ∧ s = [.scalar '}'] ∧ q = .scalar '"' :: after := by
  obtain ⟨y, hp, rfl⟩ := h
  cases y with
  | nil =>
    cases hp
    exact .inr ⟨rfl, rfl, rfl⟩
  | cons d y =>
    cases hp
    exact .inl ⟨_, rfl, y, rfl, rfl⟩

theorem Braced.ne_nil (h : Braced after p q) : p ≠ [] := by
  obtain ⟨y, rfl, -⟩ := h
  simp

theorem tracks_braced : Tracks (fun _ => ()) fun _ => Braced after where
  empty h := absurd rfl h.ne_nil
  head h := by
    rcases h.of_cons with ⟨t, rfl, -⟩ | ⟨rfl, -, rfl⟩ <;> exact ⟨_, rfl⟩
  tail hc h := by
    rcases h.of_cons with ⟨t, heq, hst⟩ | ⟨rfl, -, -⟩
    · cases heq
      exact hst
    · exact absurd rfl hc

/-- A literal goes on to the same rest in both texts, or ends at the quote. -/
theorem Pieces.braced {ps : List Piece} (h : Pieces s ps r) (hst : Braced after s t) :
    (∃ r', Pieces t ps r' ∧ Braced after r r') ∨ r = [.scalar '}'] ∧ Pieces t ps after := by
  induction h generalizing t with
  | closing =>
    rcases hst.of_cons with ⟨t, rfl, hrt⟩ | ⟨-, rfl, rfl⟩
    · exact .inl ⟨t, .closing, hrt⟩
    · exact .inr ⟨rfl, .closing⟩
  | numbered hn _ ih =>
    obtain ⟨t, rfl, hafter⟩ := tracks_braced.numbered (i := ()) hn hst
    rcases ih hafter with ⟨r', hpieces, hrest⟩ | ⟨hr, hpieces⟩
    · exact .inl ⟨r', .numbered hn hpieces, hrest⟩
    · exact .inr ⟨hr, .numbered hn hpieces⟩
  | @escaped e d s ps r he hs ih =>
    obtain ⟨t, rfl, hescape⟩ := tracks_braced.of_ne_quote (i := ()) (by decide) hst
    rcases hescape.of_cons with ⟨t, rfl, hafter⟩ | ⟨-, rfl, -⟩
    · rcases ih hafter with ⟨r', hpieces, hrest⟩ | ⟨hr, hpieces⟩
      · exact .inl ⟨r', .escaped he hpieces, hrest⟩
      · exact .inr ⟨hr, .escaped he hpieces⟩
    · -- no literal is closed by a quote behind a backslash
      cases hs with
      | plain _ _ _ hs => exact absurd rfl hs.ne_nil
  | plain hquote hslash hc _ ih =>
    obtain ⟨t, rfl, hafter⟩ := tracks_braced.of_ne_quote (i := ()) hquote hst
    rcases ih hafter with ⟨r', hpieces, hrest⟩ | ⟨hr, hpieces⟩
    · exact .inl ⟨r', .plain hquote hslash hc hpieces, hrest⟩
    · exact .inr ⟨hr, .plain hquote hslash hc hpieces⟩

theorem readString_braced {name : Text} (h : readString s = .ok (name, r))
    (hst : Braced after s t) :
    (∃ r', readString t = .ok (name, r') ∧ Braced after r r') ∨
      r = [.scalar '}'] ∧ readString t = .ok (name, after) := by
  obtain ⟨ps, hpieces, rfl⟩ := readString_eq_ok.mp h
  rcases hpieces.braced hst with ⟨r', hpieces', hrest⟩ | ⟨hr, hpieces'⟩
  · exact .inl ⟨r', readString_eq_ok.mpr ⟨ps, hpieces', rfl⟩, hrest⟩
  · exact .inr ⟨hr, readString_eq_ok.mpr ⟨ps, hpieces', rfl⟩⟩

theorem key_braced {name inner : Text} (hn : readString s = .ok (name, r))
    (hc : skipSpace r = .scalar ':' :: inner) (hst : Braced after s t) :
    ∃ r' inner', readString t = .ok (name, r') ∧ skipSpace r' = .scalar ':' :: inner' ∧
      Braced after (skipSpace inner) (skipSpace inner') := by
  rcases readString_braced hn hst with ⟨r', hn', hr⟩ | ⟨rfl, -⟩
  · obtain ⟨inner', hc', hinner⟩ := tracks_braced.of_skipSpace (i := ()) hr hc (by decide)
    obtain ⟨_, hskip, -⟩ := tracks_braced.skipSpace (i := ()) hinner
    exact ⟨r', inner', hn', hc', hskip⟩
  · cases hc

/-- The members at the start of the text can be cut out, unless one of them is kept. -/
def CanBeCut (out q : Text) (ms : List (Text × Json)) : Prop :=
  ∀ ⦃kept : List Text⦄ ⦃t : Text⦄, (∀ m ∈ ms, m.1 ∉ kept) → Excised kept .cut (skipSpace out) t →
    Excised kept .cut q t

theorem CanBeCut.single {name out : Text} {v : Json} (h : IsMember name s out) :
    CanBeCut out (.scalar '"' :: s) [(name, v)] :=
  fun _ _ hkept hout => .member h (hkept _ List.mem_cons_self) hout

theorem CanBeCut.cons {name rest out : Text} {v : Json} {ms : List (Text × Json)}
    (h : IsMember name s rest) (hms : CanBeCut out (skipSpace rest) ms) :
    CanBeCut out (.scalar '"' :: s) ((name, v) :: ms) :=
  fun _ _ hkept hout => .member h (hkept _ List.mem_cons_self)
    (hms (fun m hm => hkept m (List.mem_cons_of_mem _ hm)) hout)

/-- What ends at the last quote, or at the brace. -/
def Parsed.Ended (out q r : Text) : Parsed → Prop
  | .value v => r = [.scalar '}'] ∧ Reads q (.value v) (.scalar ',' :: out) ∨ r = []
  | .items _ => False
  | .members ms => r = [] ∧ CanBeCut out q ms

/-- Behind the last quote there is nothing but the brace. -/
theorem Parsed.Ended.of_skipSpace {out rest : Text} {v : Json}
    (h : (Parsed.value v).Ended out q r) (hr : skipSpace r = c :: rest) : c = .scalar '}' := by
  rcases h with ⟨rfl, -⟩ | rfl <;> cases hr
  rfl

/-- In both texts the same is read, unless it ends at the last quote or behind it. -/
def StaysRead (out p : Text) (x : Parsed) (r : Text) : Prop :=
  ∀ ⦃q⦄, Braced (.scalar ',' :: out) p q →
    (∃ r', Reads q x r' ∧ Braced (.scalar ',' :: out) r r') ∨ x.Ended out q r

namespace StaysRead

variable {v : Json} {vs : List Json} {ms : List (Text × Json)} {name inner rest out last : Text}

theorem string (h : readString s = .ok (name, r)) :
    StaysRead out (.scalar '"' :: s) (.value (.string name)) r := by
  intro q hq
  rcases hq.of_cons with ⟨t, rfl, hst⟩ | ⟨-, rfl, -⟩
  · rcases readString_braced h hst with ⟨r', hstring, hrest⟩ | ⟨rfl, hstring⟩
    · exact .inl ⟨r', .string hstring, hrest⟩
    · exact .inr (.inl ⟨rfl, .string hstring⟩)
  · cases h

theorem emptyArray (h : skipSpace s = .scalar ']' :: r) :
    StaysRead out (.scalar '[' :: s) (.value (.array [])) r := by
  intro q hq
  obtain ⟨t, rfl, hst⟩ := tracks_braced.of_ne_quote (i := ()) (by decide) hq
  obtain ⟨r', ht, hrest⟩ := tracks_braced.of_skipSpace (i := ()) hst h (by decide)
  exact .inl ⟨r', .emptyArray ht, hrest⟩

theorem array (hs : ∀ rest, skipSpace s ≠ .scalar ']' :: rest)
    (ih : StaysRead out (skipSpace s) (.items vs) r) :
    StaysRead out (.scalar '[' :: s) (.value (.array vs)) r := by
  intro q hq
  obtain ⟨t, rfl, hst⟩ := tracks_braced.of_ne_quote (i := ()) (by decide) hq
  obtain ⟨_, hskip, -⟩ := tracks_braced.skipSpace (i := ()) hst
  have hopened := tracks_braced.ne_cons (i := ()) hskip hs
  rcases ih hskip with ⟨r', hreads, hrest⟩ | hend
  · exact .inl ⟨r', .array hopened hreads, hrest⟩
  · exact hend.elim

theorem emptyObject (h : skipSpace s = .scalar '}' :: r) :
    StaysRead out (.scalar '{' :: s) (.value (.object [])) r := by
  intro q hq
  obtain ⟨t, rfl, hst⟩ := tracks_braced.of_ne_quote (i := ()) (by decide) hq
  obtain ⟨r', ht, hrest⟩ := tracks_braced.of_skipSpace (i := ()) hst h (by decide)
  exact .inl ⟨r', .emptyObject ht, hrest⟩

theorem object (hs : ∀ rest, skipSpace s ≠ .scalar '}' :: rest)
    (ih : StaysRead out (skipSpace s) (.members ms) r) :
    StaysRead out (.scalar '{' :: s) (.value (.object (Table.ofList ms))) r := by
  intro q hq
  obtain ⟨t, rfl, hst⟩ := tracks_braced.of_ne_quote (i := ()) (by decide) hq
  obtain ⟨_, hskip, -⟩ := tracks_braced.skipSpace (i := ()) hst
  have hopened := tracks_braced.ne_cons (i := ()) hskip hs
  rcases ih hskip with ⟨r', hreads, hrest⟩ | ⟨rfl, -⟩
  · exact .inl ⟨r', .object hopened hreads, hrest⟩
  · exact .inr (.inr rfl)

theorem word (hs : opens s = false) (h : readWord? s = some (v, r)) :
    StaysRead out s (.value v) r := by
  intro q hq
  obtain ⟨r', _, hreads, hrest⟩ := tracks_braced.word (i := ()) hq hs h
  exact .inl ⟨r', hreads, hrest⟩

theorem number (hs : opens s = false) (hw : readWord? s = none)
    (h : readNumber s = .ok (v, r)) : StaysRead out s (.value v) r := by
  intro q hq
  obtain ⟨r', _, hreads, hrest⟩ := tracks_braced.number (i := ()) hq hs hw h
  exact .inl ⟨r', hreads, hrest⟩

/-- A value and the mark behind it, which is not the brace. -/
theorem mark (ih : StaysRead out p (.value v) r) (hr : skipSpace r = c :: rest)
    (hquote : c ≠ .scalar '"') (hc : c ≠ .scalar '}') (hq : Braced (.scalar ',' :: out) p q) :
    ∃ r' rest', Reads q (.value v) r' ∧ skipSpace r' = c :: rest' ∧
      Braced (.scalar ',' :: out) rest rest' := by
  rcases ih hq with ⟨r', hreads, hafter⟩ | hend
  · obtain ⟨rest', hr', hrest⟩ := tracks_braced.of_skipSpace (i := ()) hafter hr hquote
    exact ⟨r', rest', hreads, hr', hrest⟩
  · exact absurd (hend.of_skipSpace hr) hc

theorem lastItem (ih : StaysRead out s (.value v) r) (hr : skipSpace r = .scalar ']' :: rest) :
    StaysRead out s (.items [v]) rest := by
  intro q hq
  obtain ⟨r', rest', hv', hr', hrest⟩ := ih.mark hr (by decide) (by decide) hq
  exact .inl ⟨rest', .lastItem hv' hr', hrest⟩

theorem item (ihv : StaysRead out s (.value v) r) (hr : skipSpace r = .scalar ',' :: rest)
    (ihvs : StaysRead out (skipSpace rest) (.items vs) last) :
    StaysRead out s (.items (v :: vs)) last := by
  intro q hq
  obtain ⟨r', rest', hv', hr', hrest⟩ := ihv.mark hr (by decide) (by decide) hq
  obtain ⟨_, hskip, -⟩ := tracks_braced.skipSpace (i := ()) hrest
  rcases ihvs hskip with ⟨last', hvs', hlast⟩ | hend
  · exact .inl ⟨last', .item hv' hr' hvs', hlast⟩
  · exact hend.elim

theorem lastMember {r' : Text} (hn : readString s = .ok (name, r))
    (hc : skipSpace r = .scalar ':' :: inner)
    (ih : StaysRead out (skipSpace inner) (.value v) r')
    (hr : skipSpace r' = .scalar '}' :: rest) :
    StaysRead out (.scalar '"' :: s) (.members [(name, v)]) rest := by
  intro q hq
  rcases hq.of_cons with ⟨t, rfl, hst⟩ | ⟨-, rfl, -⟩
  · obtain ⟨r₁, inner', hn', hc', hskip⟩ := key_braced hn hc hst
    rcases ih hskip with ⟨r₂, hv', hr₂⟩ | ⟨rfl, hv'⟩ | rfl
    · obtain ⟨rest', hr', hrest⟩ := tracks_braced.of_skipSpace (i := ()) hr₂ hr (by decide)
      exact .inl ⟨rest', .lastMember hn' hc' hv' hr', hrest⟩
    · cases hr
      exact .inr ⟨rfl, .single ⟨r₁, inner', _, _, hn', hc', hv', rfl⟩⟩
    · cases hr
  · cases hn

theorem member {r' : Text} (hn : readString s = .ok (name, r))
    (hc : skipSpace r = .scalar ':' :: inner)
    (ihv : StaysRead out (skipSpace inner) (.value v) r')
    (hr : skipSpace r' = .scalar ',' :: rest)
    (ihms : StaysRead out (skipSpace rest) (.members ms) last) :
    StaysRead out (.scalar '"' :: s) (.members ((name, v) :: ms)) last := by
  intro q hq
  rcases hq.of_cons with ⟨t, rfl, hst⟩ | ⟨-, rfl, -⟩
  · obtain ⟨r₁, inner', hn', hc', hskip⟩ := key_braced hn hc hst
    obtain ⟨r₂, rest', hv', hr', hrest⟩ := ihv.mark hr (by decide) (by decide) hskip
    obtain ⟨_, hskip', -⟩ := tracks_braced.skipSpace (i := ()) hrest
    rcases ihms hskip' with ⟨last', hms', hlast⟩ | ⟨rfl, hcut⟩
    · exact .inl ⟨last', .member hn' hc' hv' hr' hms', hlast⟩
    · exact .inr ⟨rfl, .cons ⟨r₁, inner', _, r₂, hn', hc', hv', hr'⟩ hcut⟩
  · cases hn

end StaysRead

theorem Reads.braced {out : Text} {x : Parsed} (h : Reads p x r) : StaysRead out p x r := by
  induction h with
  | string h => exact StaysRead.string h
  | emptyArray h => exact StaysRead.emptyArray h
  | array hs _ ih => exact StaysRead.array hs ih
  | emptyObject h => exact StaysRead.emptyObject h
  | object hs _ ih => exact StaysRead.object hs ih
  | word hs h => exact StaysRead.word hs h
  | number hs hw h => exact StaysRead.number hs hw h
  | lastItem _ hr ih => exact StaysRead.lastItem ih hr
  | item _ hr _ ihv ihvs => exact StaysRead.item ihv hr ihvs
  | lastMember hn hc _ hr ih => exact StaysRead.lastMember hn hc ih hr
  | member hn hc _ hr _ ihv ihms => exact StaysRead.member hn hc ihv hr ihms

/-- A text from the text of a source up to a quote. In braces and with the name of a source, it
reads as an object that has none of the members that are kept. -/
def Cuttable (kept : List Text) (raw : Text) : Prop :=
  ∃ ms, read (.scalar '{' :: .scalar '"' :: (sourceKey ++ raw ++ [.scalar '"', .scalar '}'])) =
      .ok (.object ms) ∧ ∀ name ∈ kept, (Table.get? name ms).isNone

instance (kept : List Text) (raw : Text) : Decidable (Cuttable kept raw) :=
  match h : read (.scalar '{' :: .scalar '"' ::
      (sourceKey ++ raw ++ [.scalar '"', .scalar '}'])) with
  | .ok (.object ms) => decidable_of_iff (∀ name ∈ kept, (Table.get? name ms).isNone)
      ⟨fun hkept => ⟨ms, h, hkept⟩, fun ⟨_, hread, hkept⟩ => by
        cases h.symm.trans hread
        exact hkept⟩
  | .ok .null | .ok (.bool _) | .ok (.int _) | .ok (.float _) | .ok (.string _)
  | .ok (.array _) | .error _ => .isFalse fun ⟨_, hread, _⟩ => by cases h.symm.trans hread

/-- Behind a comma, a cut may begin with the source that it may go on with. -/
theorem Excised.of_sourceKey {kept : List Text} {inside : Text}
    (h : Excised kept .cut (.scalar '"' :: (sourceKey ++ inside)) t) :
    Excised kept .comma (.scalar '"' :: (sourceKey ++ inside)) t := by
  generalize hs : sourceKey ++ inside = s at h
  cases h with
  | keep hi => cases hi
  | member hmember hname h =>
    subst hs
    obtain ⟨r, inner, v, r', hn, hrest⟩ := hmember
    cases hn.symm.trans (readString_sourceKey inside)
    exact .source ⟨_, inner, v, r', readString_sourceKey inside, hrest⟩ hname h
  | rules => cases hs

/-- What is an object in braces can be cut out before a comma. -/
theorem Cuttable.excised {kept : List Text} {raw : Text} (h : Cuttable kept raw)
    (hs : Excised kept .cut (.scalar '"' :: s) t) :
    Excised kept .comma (.scalar '"' ::
      (sourceKey ++ (raw ++ .scalar '"' :: .scalar ',' :: .scalar '"' :: s))) t := by
  obtain ⟨ms, hread, hkept⟩ := h
  obtain ⟨-, r, hreads, hr⟩ := read_eq_ok.mp hread
  rw [skipSpace_of_not_isSpace (by decide)] at hreads
  cases hreads with
  | emptyObject hclosed => cases hclosed
  | @object _ pairs _ _ hpairs =>
    rw [skipSpace_of_not_isSpace (by decide)] at hpairs
    rcases hpairs.braced ⟨.scalar '"' :: (sourceKey ++ raw), rfl, rfl⟩ with
      ⟨r', -, hrest⟩ | ⟨-, hcut⟩
    · obtain ⟨_, hskip, -⟩ := tracks_braced.skipSpace (i := ()) hrest
      exact absurd hr hskip.ne_nil
    · rw [List.cons_append, List.append_assoc] at hcut
      refine (hcut (fun m hm hname => ?_) hs).of_sourceKey
      exact Table.isNone_get?.mp (hkept _ hname)
        (Table.mem_names_ofList.mpr (List.mem_map_of_mem hm))
  | word hs => cases hs
  | number hs => cases hs

end Braced

end LintReport.Json
