import LintReport.Proofs.Json.Token

/-!
The grammar of JSON texts, as a relation between a text, what stands at its start, and what follows.
The reader finds exactly what the grammar allows: fuel that is twice the length of what is read
suffices, and more of it makes no difference.
-/
namespace LintReport.Json

/-- A text in quotation marks is read in one step. -/
theorem readValue_string {fuel : Nat} {s : Text} :
    readValue (fuel + 1) (.scalar '"' :: s) =
      (readString s).map fun (t, rest) => (.string t, rest) := by
  rw [readValue]

/-- What can stand at the start of a text: a value, or what is left of an array or of an object. -/
inductive Parsed where
  | value (v : Json)
  | items (vs : List Json)
  | members (ms : List (Text × Json))

/-- Does a text start as a string, an array or an object does? -/
def opens : Text → Bool
  | .scalar '"' :: _ | .scalar '[' :: _ | .scalar '{' :: _ => true
  | _ => false

/-- What stands at the start of a text, and what follows it. -/
inductive Reads : Text → Parsed → Text → Prop
  | string {s t r} (h : readString s = .ok (t, r)) :
      Reads (.scalar '"' :: s) (.value (.string t)) r
  | emptyArray {s r} (h : skipSpace s = .scalar ']' :: r) :
      Reads (.scalar '[' :: s) (.value (.array [])) r
  | array {s vs r} (hs : ∀ rest, skipSpace s ≠ .scalar ']' :: rest)
      (h : Reads (skipSpace s) (.items vs) r) : Reads (.scalar '[' :: s) (.value (.array vs)) r
  | emptyObject {s r} (h : skipSpace s = .scalar '}' :: r) :
      Reads (.scalar '{' :: s) (.value (.object [])) r
  | object {s ms r} (hs : ∀ rest, skipSpace s ≠ .scalar '}' :: rest)
      (h : Reads (skipSpace s) (.members ms) r) :
      Reads (.scalar '{' :: s) (.value (.object (Table.ofList ms))) r
  | word {s v r} (hs : opens s = false) (h : readWord? s = some (v, r)) : Reads s (.value v) r
  | number {s v r} (hs : opens s = false) (hw : readWord? s = none)
      (h : readNumber s = .ok (v, r)) : Reads s (.value v) r
  | lastItem {s v r rest} (hv : Reads s (.value v) r) (hr : skipSpace r = .scalar ']' :: rest) :
      Reads s (.items [v]) rest
  | item {s v vs r rest out} (hv : Reads s (.value v) r)
      (hr : skipSpace r = .scalar ',' :: rest) (hvs : Reads (skipSpace rest) (.items vs) out) :
      Reads s (.items (v :: vs)) out
  | lastMember {s name v r inner r' rest} (hn : readString s = .ok (name, r))
      (hc : skipSpace r = .scalar ':' :: inner) (hv : Reads (skipSpace inner) (.value v) r')
      (hr : skipSpace r' = .scalar '}' :: rest) :
      Reads (.scalar '"' :: s) (.members [(name, v)]) rest
  | member {s name v ms r inner r' rest out} (hn : readString s = .ok (name, r))
      (hc : skipSpace r = .scalar ':' :: inner) (hv : Reads (skipSpace inner) (.value v) r')
      (hr : skipSpace r' = .scalar ',' :: rest)
      (hms : Reads (skipSpace rest) (.members ms) out) :
      Reads (.scalar '"' :: s) (.members ((name, v) :: ms)) out

/-! ### One step of the reader -/

variable {fuel : Nat} {s r : Text}

theorem readValue_emptyArray (h : skipSpace s = .scalar ']' :: r) :
    readValue (fuel + 1) (.scalar '[' :: s) = .ok (.array [], r) := by
  rw [readValue, h]
  rfl

theorem readValue_array (h : ∀ rest, skipSpace s ≠ .scalar ']' :: rest) :
    readValue (fuel + 1) (.scalar '[' :: s) =
      (readItems fuel (skipSpace s)).map fun (items, rest) => (.array items, rest) := by
  rw [readValue]
  split
  · next rest hrest => exact absurd hrest (h rest)
  · rfl

theorem readValue_emptyObject (h : skipSpace s = .scalar '}' :: r) :
    readValue (fuel + 1) (.scalar '{' :: s) = .ok (.object [], r) := by
  rw [readValue, h]
  rfl

theorem readValue_object (h : ∀ rest, skipSpace s ≠ .scalar '}' :: rest) :
    readValue (fuel + 1) (.scalar '{' :: s) =
      (readMembers fuel (skipSpace s)).map fun (pairs, rest) =>
        (.object (Table.ofList pairs), rest) := by
  rw [readValue]
  split
  · next rest hrest => exact absurd hrest (h rest)
  · rfl

theorem readValue_plain (h : opens s = false) :
    readValue (fuel + 1) s = match readWord? s with
      | some found => .ok found
      | none => readNumber s := by
  refine readValue.eq_5 s fuel ?_ ?_ ?_
  all_goals
    rintro r rfl
    cases h

theorem readItems_last {v : Json} {rest : Text} (hv : readValue fuel s = .ok (v, r))
    (hr : skipSpace r = .scalar ']' :: rest) : readItems (fuel + 1) s = .ok ([v], rest) := by
  rw [readItems, hv]
  simp only [bind, Except.bind, hr]

theorem readItems_next {v : Json} {rest : Text} (hv : readValue fuel s = .ok (v, r))
    (hr : skipSpace r = .scalar ',' :: rest) :
    readItems (fuel + 1) s =
      (readItems fuel (skipSpace rest)).map fun (vs, rest) => (v :: vs, rest) := by
  rw [readItems, hv]
  simp only [bind, Except.bind, hr]

theorem readMembers_last {name inner r' rest : Text} {v : Json}
    (hn : readString s = .ok (name, r)) (hc : skipSpace r = .scalar ':' :: inner)
    (hv : readValue fuel (skipSpace inner) = .ok (v, r'))
    (hr : skipSpace r' = .scalar '}' :: rest) :
    readMembers (fuel + 1) (.scalar '"' :: s) = .ok ([(name, v)], rest) := by
  rw [readMembers, hn]
  simp only [bind, Except.bind, hc, hv, hr]

theorem readMembers_next {name inner r' rest : Text} {v : Json}
    (hn : readString s = .ok (name, r)) (hc : skipSpace r = .scalar ':' :: inner)
    (hv : readValue fuel (skipSpace inner) = .ok (v, r'))
    (hr : skipSpace r' = .scalar ',' :: rest) :
    readMembers (fuel + 1) (.scalar '"' :: s) =
      (readMembers fuel (skipSpace rest)).map fun (ms, rest) => ((name, v) :: ms, rest) := by
  rw [readMembers, hn]
  simp only [bind, Except.bind, hc, hv, hr]

/-! ### From the reader to the grammar -/

theorem skipSpace_cases (s : Text) (c : CodePoint) :
    (∃ rest, skipSpace s = c :: rest) ∨ ∀ rest, skipSpace s ≠ c :: rest := by
  by_cases h : ∃ rest, skipSpace s = c :: rest
  · exact Or.inl h
  · exact Or.inr fun rest hrest => h ⟨rest, hrest⟩

theorem opens_cases (s : Text) : (∃ r, s = .scalar '"' :: r) ∨ (∃ r, s = .scalar '[' :: r) ∨
    (∃ r, s = .scalar '{' :: r) ∨ opens s = false := by
  unfold opens
  split
  · exact Or.inl ⟨_, rfl⟩
  · exact Or.inr (Or.inl ⟨_, rfl⟩)
  · exact Or.inr (Or.inr (Or.inl ⟨_, rfl⟩))
  · exact Or.inr (Or.inr (Or.inr rfl))

/-- The reader finds something with some fuel. -/
def Parsed.Found (fuel : Nat) (s r : Text) : Parsed → Prop
  | .value v => readValue fuel s = .ok (v, r)
  | .items vs => readItems fuel s = .ok (vs, r)
  | .members ms => readMembers fuel s = .ok (ms, r)

section Sound

variable {vs : List Json} {ms : List (Text × Json)}

theorem reads_value {v : Json} (ih : ∀ x s r, Parsed.Found fuel s r x → Reads s x r)
    (h : readValue (fuel + 1) s = .ok (v, r)) : Reads s (.value v) r := by
  rcases opens_cases s with ⟨s, rfl⟩ | ⟨s, rfl⟩ | ⟨s, rfl⟩ | hs
  · rw [readValue_string] at h
    obtain ⟨⟨t, rest⟩, hstring, heq⟩ := map_eq_ok h
    cases heq
    exact .string hstring
  · rcases skipSpace_cases s (.scalar ']') with ⟨rest, hrest⟩ | hopen
    · rw [readValue_emptyArray hrest] at h
      cases h
      exact .emptyArray hrest
    · rw [readValue_array hopen] at h
      obtain ⟨⟨vs, rest⟩, hitems, heq⟩ := map_eq_ok h
      cases heq
      exact .array hopen (ih (.items vs) _ _ hitems)
  · rcases skipSpace_cases s (.scalar '}') with ⟨rest, hrest⟩ | hopen
    · rw [readValue_emptyObject hrest] at h
      cases h
      exact .emptyObject hrest
    · rw [readValue_object hopen] at h
      obtain ⟨⟨ms, rest⟩, hmembers, heq⟩ := map_eq_ok h
      cases heq
      exact .object hopen (ih (.members ms) _ _ hmembers)
  · rw [readValue_plain hs] at h
    cases hw : readWord? s with
    | some found =>
      rw [hw] at h
      cases h
      exact .word hs hw
    | none =>
      rw [hw] at h
      exact .number hs hw h

theorem reads_items (ih : ∀ x s r, Parsed.Found fuel s r x → Reads s x r)
    (h : readItems (fuel + 1) s = .ok (vs, r)) : Reads s (.items vs) r := by
  rw [readItems] at h
  cases hv : readValue fuel s with
  | error e =>
    rw [hv] at h
    cases h
  | ok found =>
    obtain ⟨v, rest⟩ := found
    rw [hv] at h
    simp only [bind, Except.bind] at h
    split at h
    · next hr =>
      cases h
      exact .lastItem (ih (.value v) _ _ hv) hr
    · next hr =>
      obtain ⟨⟨vs, rest⟩, hitems, heq⟩ := map_eq_ok h
      cases heq
      exact .item (ih (.value v) _ _ hv) hr (ih (.items vs) _ _ hitems)
    · cases h

theorem reads_members (ih : ∀ x s r, Parsed.Found fuel s r x → Reads s x r)
    (h : readMembers (fuel + 1) s = .ok (ms, r)) : Reads s (.members ms) r := by
  rcases opens_cases s with ⟨s, rfl⟩ | hs
  · rw [readMembers] at h
    cases hn : readString s with
    | error e =>
      rw [hn] at h
      cases h
    | ok found =>
      obtain ⟨name, rest⟩ := found
      rw [hn] at h
      simp only [bind, Except.bind] at h
      split at h
      · next inner hc =>
        split at h
        · cases h
        · next found hv =>
          obtain ⟨v, rest'⟩ := found
          split at h
          · next hr =>
            cases h
            exact .lastMember hn hc (ih (.value v) _ _ hv) hr
          · next hr =>
            obtain ⟨⟨ms, rest⟩, hmembers, heq⟩ := map_eq_ok h
            cases heq
            exact .member hn hc (ih (.value v) _ _ hv) hr (ih (.members ms) _ _ hmembers)
          · cases h
      · cases h
  · unfold readMembers at h
    split at h
    · next r => simp_all [opens]
    · cases h

end Sound

/-- Whatever the reader finds is allowed by the grammar. -/
theorem reads_of_found (fuel : Nat) :
    ∀ (x : Parsed) (s r : Text), x.Found fuel s r → Reads s x r := by
  induction fuel with
  | zero =>
    intro x s r h
    cases x with
    | value v => rw [Parsed.Found, readValue] at h; cases h
    | items vs => rw [Parsed.Found, readItems] at h; cases h
    | members ms => rw [Parsed.Found, readMembers] at h; cases h
  | succ fuel ih =>
    intro x s r h
    cases x with
    | value v => exact reads_value ih h
    | items vs => exact reads_items ih h
    | members ms => exact reads_members ih h

/-! ### From the grammar to the reader -/

theorem skipSpace_split (s : Text) : ∃ y, (∀ c ∈ y, isSpace c = true) ∧ s = y ++ skipSpace s :=
  ⟨s.takeWhile isSpace, List.all_eq_true.mp List.all_takeWhile,
    List.takeWhile_append_dropWhile.symm⟩

/-- The closing mark of an array or of an object, which is the last thing that is read of it. -/
def Parsed.EndsWith : Parsed → CodePoint → Prop
  | .value (.array _), c | .items _, c => c = .scalar ']'
  | .value (.object _), c | .members _, c => c = .scalar '}'
  | .value _, _ => True

theorem endsWith_word {s r : Text} {v : Json} (h : readWord? s = some (v, r)) (c : CodePoint) :
    (Parsed.value v).EndsWith c := by
  obtain ⟨⟨word, value⟩, hmem, hword⟩ := List.exists_of_findSome?_eq_some h
  obtain ⟨rest, -, heq⟩ := Option.map_eq_some_iff.mp hword
  cases heq
  simp only [words, List.mem_cons, List.not_mem_nil, or_false, Prod.mk.injEq] at hmem
  rcases hmem with ⟨-, rfl⟩ | ⟨-, rfl⟩ | ⟨-, rfl⟩ | ⟨-, rfl⟩ | ⟨-, rfl⟩ | ⟨-, rfl⟩ <;> trivial

theorem endsWith_number {s r : Text} {v : Json} (h : readNumber s = .ok (v, r)) (c : CodePoint) :
    (Parsed.value v).EndsWith c := by
  obtain ⟨_, _, _, _, _, _, _, -, -, -, -, -, hv⟩ := readNumber_eq_ok h
  rcases numeral_kind hv with ⟨n, rfl⟩ | ⟨x, rfl⟩ <;> trivial

theorem skipSpace_suffix (s : Text) : skipSpace s <:+ s := List.dropWhile_suffix _

theorem suffix_of_skipSpace {s r : Text} {c : CodePoint} (h : skipSpace s = c :: r) :
    c :: r <:+ s := h ▸ skipSpace_suffix s

theorem readString_suffix {s t r : Text} (h : readString s = .ok (t, r)) :
    .scalar '"' :: r <:+ s := by
  obtain ⟨ps, hpieces, -⟩ := readString_eq_ok.mp h
  obtain ⟨y, rfl⟩ := hpieces.split
  exact List.suffix_append _ _

theorem suffix_behind {s r t : Text} {c : CodePoint} (h : c :: r <:+ s) (ht : t <:+ r) : t <:+ s :=
  ht.trans ((List.suffix_cons c r).trans h)

theorem exists_last_suffix {s y r : Text} (hne : y ≠ []) (hs : s = y ++ r) :
    ∃ c, c :: r <:+ s := by
  refine ⟨y.getLast hne, y.dropLast, ?_⟩
  rw [hs, ← List.singleton_append, ← List.append_assoc, List.dropLast_concat_getLast]

/-- What is read stands at the start of the text, and is not empty. -/
theorem Reads.exists_suffix {s r : Text} {x : Parsed} (h : Reads s x r) :
    ∃ c, c :: r <:+ s ∧ x.EndsWith c := by
  induction h with
  | string h => exact ⟨_, (readString_suffix h).trans (List.suffix_cons _ _), trivial⟩
  | emptyArray h => exact ⟨_, (suffix_of_skipSpace h).trans (List.suffix_cons _ _), rfl⟩
  | @array s _ _ _ _ ih =>
    obtain ⟨c, hitems, hc⟩ := ih
    exact ⟨c, (hitems.trans (skipSpace_suffix s)).trans (List.suffix_cons _ _), hc⟩
  | emptyObject h => exact ⟨_, (suffix_of_skipSpace h).trans (List.suffix_cons _ _), rfl⟩
  | @object s _ _ _ _ ih =>
    obtain ⟨c, hmembers, hc⟩ := ih
    exact ⟨c, (hmembers.trans (skipSpace_suffix s)).trans (List.suffix_cons _ _), hc⟩
  | word _ h =>
    obtain ⟨y, hne, -, hy⟩ := readWord?_split h
    obtain ⟨c, hc⟩ := exists_last_suffix hne hy
    exact ⟨c, hc, endsWith_word h c⟩
  | number _ _ h =>
    obtain ⟨y, hne, -, hy⟩ := readNumber_split h
    obtain ⟨c, hc⟩ := exists_last_suffix hne hy
    exact ⟨c, hc, endsWith_number h c⟩
  | lastItem _ hr ih =>
    obtain ⟨c, hvalue, -⟩ := ih
    exact ⟨_, suffix_behind hvalue (suffix_of_skipSpace hr), rfl⟩
  | @item _ _ _ _ rest _ _ hr _ ihv ihvs =>
    obtain ⟨c, hvalue, -⟩ := ihv
    obtain ⟨c', hitems, hc'⟩ := ihvs
    have hrest := suffix_behind hvalue (suffix_of_skipSpace hr)
    exact ⟨c', suffix_behind hrest (hitems.trans (skipSpace_suffix rest)), hc'⟩
  | @lastMember _ _ _ _ inner _ _ hn hc _ hr ih =>
    obtain ⟨c, hvalue, -⟩ := ih
    have hinner := suffix_behind (readString_suffix hn) (suffix_of_skipSpace hc)
    have hread := suffix_behind hinner (hvalue.trans (skipSpace_suffix inner))
    have hrest := suffix_behind hread (suffix_of_skipSpace hr)
    exact ⟨_, hrest.trans (List.suffix_cons _ _), rfl⟩
  | @member _ _ _ _ _ inner _ rest _ hn hc _ hr _ ihv ihms =>
    obtain ⟨c, hvalue, -⟩ := ihv
    obtain ⟨c', hmembers, hc'⟩ := ihms
    have hinner := suffix_behind (readString_suffix hn) (suffix_of_skipSpace hc)
    have hread := suffix_behind hinner (hvalue.trans (skipSpace_suffix inner))
    have hrest := suffix_behind hread (suffix_of_skipSpace hr)
    have hlast := suffix_behind hrest (hmembers.trans (skipSpace_suffix rest))
    exact ⟨c', hlast.trans (List.suffix_cons _ _), hc'⟩

theorem Reads.length_lt {s r : Text} {x : Parsed} (h : Reads s x r) : r.length < s.length := by
  obtain ⟨c, hsuffix, -⟩ := h.exists_suffix
  exact hsuffix.length_le

theorem length_skipSpace_le (s : Text) : (skipSpace s).length ≤ s.length :=
  (skipSpace_suffix s).length_le

/-- Whatever the grammar allows is found with fuel that is twice the length of what is read. -/
theorem Reads.found {s r : Text} {x : Parsed} (h : Reads s x r) :
    ∀ fuel, 2 * s.length ≤ fuel + 2 * r.length → x.Found fuel s r := by
  have hspace {s r : Text} {c : CodePoint} (h : skipSpace s = c :: r) :
      r.length + 1 ≤ s.length := (suffix_of_skipSpace h).length_le
  have hsucc {s r : Text} {x : Parsed} {fuel : Nat} (h : Reads s x r)
      (hfuel : 2 * s.length ≤ fuel + 2 * r.length) : ∃ k, fuel = k + 1 := by
    have := h.length_lt
    exact Nat.exists_eq_succ_of_ne_zero (by omega)
  induction h with
  | @string s t r h =>
    intro fuel hfuel
    obtain ⟨fuel, rfl⟩ := hsucc (.string h) hfuel
    rw [Parsed.Found, readValue_string, h]
    rfl
  | emptyArray h =>
    intro fuel hfuel
    obtain ⟨fuel, rfl⟩ := hsucc (.emptyArray h) hfuel
    exact readValue_emptyArray h
  | @array s vs r hs h ih =>
    intro fuel hfuel
    obtain ⟨fuel, rfl⟩ := hsucc (.array hs h) hfuel
    have hle := length_skipSpace_le s
    have hitems : readItems fuel (skipSpace s) = .ok (vs, r) :=
      ih fuel (by simp only [List.length_cons] at hfuel; omega)
    rw [Parsed.Found, readValue_array hs, hitems]
    rfl
  | emptyObject h =>
    intro fuel hfuel
    obtain ⟨fuel, rfl⟩ := hsucc (.emptyObject h) hfuel
    exact readValue_emptyObject h
  | @object s ms r hs h ih =>
    intro fuel hfuel
    obtain ⟨fuel, rfl⟩ := hsucc (.object hs h) hfuel
    have hle := length_skipSpace_le s
    have hmembers : readMembers fuel (skipSpace s) = .ok (ms, r) :=
      ih fuel (by simp only [List.length_cons] at hfuel; omega)
    rw [Parsed.Found, readValue_object hs, hmembers]
    rfl
  | word hs h =>
    intro fuel hfuel
    obtain ⟨fuel, rfl⟩ := hsucc (.word hs h) hfuel
    rw [Parsed.Found, readValue_plain hs, h]
  | number hs hw h =>
    intro fuel hfuel
    obtain ⟨fuel, rfl⟩ := hsucc (.number hs hw h) hfuel
    rw [Parsed.Found, readValue_plain hs, hw]
    exact h
  | lastItem hv hr ih =>
    intro fuel hfuel
    obtain ⟨fuel, rfl⟩ := hsucc (.lastItem hv hr) hfuel
    have := hspace hr
    exact readItems_last (ih fuel (by omega)) hr
  | @item s v vs r rest out hv hr hvs ihv ihvs =>
    intro fuel hfuel
    obtain ⟨fuel, rfl⟩ := hsucc (.item hv hr hvs) hfuel
    have := hspace hr
    have := length_skipSpace_le rest
    have := hv.length_lt
    have := hvs.length_lt
    have hitems : readItems fuel (skipSpace rest) = .ok (vs, out) := ihvs fuel (by omega)
    rw [Parsed.Found, readItems_next (ihv fuel (by omega)) hr, hitems]
    rfl
  | @lastMember s name v r inner r' rest hn hc hv hr ih =>
    intro fuel hfuel
    obtain ⟨fuel, rfl⟩ := hsucc (.lastMember hn hc hv hr) hfuel
    have := (Reads.string hn).length_lt
    have := hspace hc
    have := length_skipSpace_le inner
    have := hspace hr
    exact readMembers_last hn hc (ih fuel (by simp only [List.length_cons] at *; omega)) hr
  | @member s name v ms r inner r' rest out hn hc hv hr hms ihv ihms =>
    intro fuel hfuel
    obtain ⟨fuel, rfl⟩ := hsucc (.member hn hc hv hr hms) hfuel
    have := (Reads.string hn).length_lt
    have := hspace hc
    have := length_skipSpace_le inner
    have := hv.length_lt
    have := hspace hr
    have := length_skipSpace_le rest
    have := hms.length_lt
    simp only [List.length_cons] at *
    have hmembers : readMembers fuel (skipSpace rest) = .ok (ms, out) := ihms fuel (by omega)
    rw [Parsed.Found, readMembers_next hn hc (ihv fuel (by omega)) hr, hmembers]
    rfl

/-! ### Whole texts -/

/-- A text with a byte-order mark before its value. -/
def hasMark : Text → Bool
  | .scalar '\uFEFF' :: _ => true
  | _ => false

theorem read_of_hasMark {s : Text} (h : hasMark s = false) :
    read s = (readValue (2 * s.length + 2) (skipSpace s)).bind fun found =>
      if skipSpace found.2 = [] then .ok found.1 else mistakeAt .extraText (skipSpace found.2) := by
  rw [read]
  · cases readValue (2 * s.length + 2) (skipSpace s) with
    | error e => rfl
    | ok found =>
      obtain ⟨v, r⟩ := found
      simp only [bind, Except.bind]
      split
      · next hr => rw [if_pos hr]
      · next hr => rw [if_neg hr]
  · rintro rest rfl
    cases h

/-- A text spells a value if the value is all that it has between its spaces. -/
theorem read_eq_ok {s : Text} {v : Json} :
    read s = .ok v ↔ hasMark s = false ∧ ∃ r, Reads (skipSpace s) (.value v) r ∧
      skipSpace r = [] := by
  cases hs : hasMark s with
  | true =>
    unfold hasMark at hs
    split at hs
    · simp [read, mistakeAt]
    · cases hs
  | false =>
    rw [read_of_hasMark hs]
    constructor
    · intro h
      cases hv : readValue (2 * s.length + 2) (skipSpace s) with
      | error e =>
        rw [hv] at h
        cases h
      | ok found =>
        obtain ⟨v', r⟩ := found
        rw [hv] at h
        simp only [Except.bind] at h
        split at h
        · next hr =>
          cases h
          exact ⟨rfl, r, reads_of_found _ (.value v) _ _ hv, hr⟩
        · cases h
    · rintro ⟨-, r, hreads, hr⟩
      have hle := length_skipSpace_le s
      have hv : readValue (2 * s.length + 2) (skipSpace s) = .ok (v, r) :=
        hreads.found _ (by omega)
      rw [hv]
      exact if_pos hr

/-- A text that spells an array or an object ends with its closing mark, but for spaces. -/
theorem read_closing {s : Text} {v : Json} (h : read s = .ok v) :
    ∃ y c z, s = y ++ c :: z ∧ (Parsed.value v).EndsWith c ∧ ∀ x ∈ z, isSpace x = true := by
  obtain ⟨-, r, hreads, hr⟩ := read_eq_ok.mp h
  obtain ⟨y, -, hs⟩ := skipSpace_split s
  obtain ⟨c, ⟨y', hy'⟩, hc⟩ := hreads.exists_suffix
  obtain ⟨z, hz, hrest⟩ := skipSpace_split r
  rw [hr, List.append_nil] at hrest
  exact ⟨y ++ y', c, r, by rw [List.append_assoc, hy']; exact hs, hc, hrest ▸ hz⟩

end LintReport.Json
