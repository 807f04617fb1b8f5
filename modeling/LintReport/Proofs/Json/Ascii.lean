import LintReport.Proofs.Json.Written
import LintReport.Text.Utf8

/-!
Texts on a line of ASCII. An object of texts is written without a unit that ends a line, whatever
the texts hold, and they are read back from the line. Only halves of surrogate pairs can come back
as something else: two of them in a row, the character that they spell.
-/
namespace LintReport

/-! ### Surrogate pairs -/

/-- The text in which the two halves of a surrogate pair, one after the other, are the character
that they spell. -/
def Text.paired : Text → Text
  | [] => []
  | .surrogate high :: .surrogate low :: s =>
    if high.val < 0x400 ∧ 0x400 ≤ low.val then
      .ofNat (0x10000 + high.val * 0x400 + (low.val - 0x400)) :: paired s
    else
      .surrogate high :: paired (.surrogate low :: s)
  | c :: s => c :: paired s

theorem Text.paired_of_whole {t : Text} (h : ∀ c ∈ t, c.isSurrogate = false) : t.paired = t := by
  induction t with
  | nil => rfl
  | cons c s ih =>
    obtain ⟨hc, hs⟩ := List.forall_mem_cons.mp h
    cases c with
    | surrogate half => cases hc
    | scalar c => rw [paired, ih hs]; nofun

namespace Json

/-! ### Escapes -/

/-- The pieces that a unit becomes in a literal of ASCII: itself, its number, or the numbers of the
surrogate pair that spells it. -/
inductive Escape : CodePoint → List Piece → Prop
  | plain {c} (h : c.value < 0x7F) : Escape c [.plain c]
  | numbered {c} (h : c.value < 0x10000) : Escape c [.numbered c.value]
  | pair {c} (h : 0x10000 ≤ c.value) :
      Escape c [.numbered (0xD800 + (c.value - 0x10000) / 0x400),
        .numbered (0xDC00 + (c.value - 0x10000) % 0x400)]

/-- The pieces that the units of a text become. -/
inductive Escapes : Text → List Piece → Prop
  | nil : Escapes [] []
  | cons {c ps s qs} (h : Escape c ps) (hs : Escapes s qs) : Escapes (c :: s) (ps ++ qs)

theorem value_lt (c : CodePoint) : c.value < 0x110000 := by
  cases c with
  | scalar c =>
    have hc : c.toNat < 0xD800 ∨ 0xDFFF < c.toNat ∧ c.toNat < 0x110000 := c.valid
    change c.toNat < _
    omega
  | surrogate half =>
    change 0xD800 + half.val < _
    omega

theorem Pieces.asciiUnit (c : CodePoint) {s r : Text} {qs : List Piece} (h : Pieces s qs r) :
    ∃ ps, Escape c ps ∧ Pieces (Json.literalUnit .ascii c ++ s) (ps ++ qs) r := by
  unfold Json.literalUnit
  split
  case h_8 hquote hslash _ _ _ _ _ =>
    have hnumbered {n : Nat} (hn : n < 0x10000) {s : Text} {qs : List Piece} (h : Pieces s qs r) :
        Pieces (hexEscape n ++ s) (.numbered n :: qs) r := by
      obtain ⟨a, b, c', d, hchars, hnumber⟩ := hex4?_hexDigits hn
      rw [hexEscape, hchars]
      exact .numbered hnumber h
    have hlt := value_lt c
    split
    · exact ⟨_, .numbered (by omega), hnumbered (by omega) h⟩
    · next hc =>
      split
      · next hplain =>
        have hplain : c.value < 0x7F := hplain.resolve_left (by decide)
        exact ⟨_, .plain hplain, .plain hquote hslash (Nat.le_of_not_lt hc) h⟩
      · split
        · next hc => exact ⟨_, .numbered hc, hnumbered hc h⟩
        · rw [List.append_assoc]
          exact ⟨_, .pair (by omega), hnumbered (by omega) (hnumbered (by omega) h)⟩
  all_goals exact ⟨_, .plain (by decide), .escaped rfl h⟩

/-- A unit that is no half of a surrogate pair is spelled by its pieces. -/
theorem Escape.textOfPieces {c : CodePoint} {ps : List Piece} (h : Escape c ps)
    (hc : c.isSurrogate = false) (qs : List Piece) :
    textOfPieces (ps ++ qs) = c :: textOfPieces qs := by
  have hvalue : c.value < 0xD800 ∨ 0xDFFF < c.value := by
    cases c with
    | surrogate half => cases hc
    | scalar c => exact c.valid.imp id And.left
  have hlt := value_lt c
  cases h with
  | plain h => rfl
  | numbered h =>
    rw [List.singleton_append, textOfPieces_numbered fun low _ => by omega, ofNat_value]
  | pair h =>
    have hnumber : 0x10000 + (0xD800 + (c.value - 0x10000) / 0x400 - 0xD800) * 0x400 +
        (0xDC00 + (c.value - 0x10000) % 0x400 - 0xDC00) = c.value := by omega
    rw [List.cons_append, List.singleton_append, Json.textOfPieces, if_pos (by omega), hnumber,
      ofNat_value]

theorem Escape.surrogate {half : Fin 2048} {ps : List Piece} (h : Escape (.surrogate half) ps) :
    ps = [.numbered (0xD800 + half.val)] := by
  generalize hc : CodePoint.surrogate half = c at h
  have hvalue : c.value = 0xD800 + half.val := hc ▸ rfl
  cases h with
  | plain h => omega
  | numbered h => rw [hvalue]
  | pair h => omega

/-- Only the second half of a surrogate pair becomes the number of one. -/
theorem Escapes.head {s : Text} {ps : List Piece} (h : Escapes s ps) {low : Nat}
    (hhead : ps.head? = some (.numbered low)) (hlow : 0xDC00 ≤ low) (hlow' : low < 0xE000) :
    ∃ half t, s = .surrogate half :: t := by
  cases h with
  | nil => cases hhead
  | @cons c ps s qs h hs =>
    cases c with
    | surrogate half => exact ⟨half, s, rfl⟩
    | scalar c =>
      have hc : c.toNat < 0xD800 ∨ 0xDFFF < c.toNat ∧ c.toNat < 0x110000 := c.valid
      generalize hvalue : CodePoint.scalar c = x at h
      have hvalue : x.value = c.toNat := hvalue ▸ rfl
      cases h <;> simp at hhead <;> omega

/-- What the pieces of a text spell. -/
theorem Escapes.textOfPieces {t : Text} {ps : List Piece} (h : Escapes t ps) :
    textOfPieces ps = t.paired := by
  fun_induction Text.paired t generalizing ps with
  | case1 => cases h; rfl
  | case2 high low s hpair ih =>
    obtain _ | ⟨hhigh, _ | ⟨hlow, hs⟩⟩ := h
    have hnumber : 0x10000 + (0xD800 + high.val - 0xD800) * 0x400 + (0xD800 + low.val - 0xDC00) =
        0x10000 + high.val * 0x400 + (low.val - 0x400) := by omega
    rw [hhigh.surrogate, hlow.surrogate, List.singleton_append, List.singleton_append,
      Json.textOfPieces, if_pos (by omega), hnumber, ih hs]
  | case3 high low s hpair ih =>
    obtain _ | ⟨hhigh, hrest⟩ := h
    rw [hhigh.surrogate, List.singleton_append, textOfPieces_numbered, ih hrest]
    · exact congrArg (· :: _) (ofNat_value (.surrogate high))
    · intro n hn
      obtain _ | ⟨hlow, hs⟩ := hrest
      rw [hlow.surrogate] at hn
      cases hn
      omega
  | case4 c s hpair ih =>
    obtain _ | ⟨hc, hs⟩ := h
    cases hsurrogate : c.isSurrogate with
    | false => rw [hc.textOfPieces hsurrogate, ih hs]
    | true =>
      cases c with
      | scalar c => cases hsurrogate
      | surrogate high =>
        rw [hc.surrogate, List.singleton_append, textOfPieces_numbered, ih hs]
        · exact congrArg (· :: _) (ofNat_value (.surrogate high))
        · rintro n hn ⟨-, -, hlow, hlow'⟩
          obtain ⟨low, t, rfl⟩ := hs.head hn hlow hlow'
          exact hpair high low t rfl rfl

theorem readString_ascii (t r : Text) :
    readString (t.flatMap (literalUnit .ascii) ++ .scalar '"' :: r) = .ok (t.paired, r) := by
  obtain ⟨ps, hescapes, hpieces⟩ : ∃ ps, Escapes t ps ∧
      Pieces (t.flatMap (literalUnit .ascii) ++ .scalar '"' :: r) ps r := by
    induction t with
    | nil => exact ⟨[], .nil, .closing⟩
    | cons c t ih =>
      obtain ⟨qs, hescapes, hpieces⟩ := ih
      obtain ⟨ps, hescape, hunit⟩ := hpieces.asciiUnit c
      exact ⟨_, .cons hescape hescapes, by rwa [List.flatMap_cons, List.append_assoc]⟩
  exact readString_eq_ok.mpr ⟨ps, hpieces, hescapes.textOfPieces.symm⟩

/-! ### Lines -/

theorem isGraphic_asciiUnit (c : CodePoint) : IsGraphic (literalUnit .ascii c) := by
  unfold literalUnit
  split
  case h_8 =>
    split
    · exact isGraphic_hexEscape _
    · split
      · next hc hplain =>
        have hplain : c.value < 0x7F := hplain.resolve_left (by decide)
        exact isGraphic_singleton ⟨Nat.le_of_not_lt hc, by omega⟩
      · split
        · exact isGraphic_hexEscape _
        · exact (isGraphic_hexEscape _).append (isGraphic_hexEscape _)
  all_goals exact fun x hx => by revert x; decide

theorem isGraphic_ascii (t : Text) : IsGraphic (literal .ascii t) := by
  have hunits : IsGraphic (t.flatMap (literalUnit .ascii)) := by
    intro x hx
    obtain ⟨c, -, hc⟩ := List.mem_flatMap.mp hx
    exact isGraphic_asciiUnit c x hc
  have hquote : IsGraphic [.scalar '"'] := isGraphic_singleton (by decide)
  exact (hquote.append hunits).append hquote

/-! ### Objects of texts -/

/-- An object whose members are texts. -/
def ofTexts (members : List (Text × Text)) : Json :=
  .object (members.map fun m => (m.1, .string m.2))

/-- The members as they are read back. -/
def pairedTexts (members : List (Text × Text)) : List (Text × Text) :=
  members.map fun m => (m.1.paired, m.2.paired)

theorem reads_compactTexts (r : Text) {members : List (Text × Text)} (hne : members ≠ []) :
    Reads (skipSpace
        (compactMembers .ascii (members.map fun m => (m.1, .string m.2)) ++ .scalar '}' :: r))
      (.members ((pairedTexts members).map fun m => (m.1, .string m.2))) r := by
  induction members with
  | nil => exact absurd rfl hne
  | cons m ms ih =>
    obtain ⟨name, t⟩ := m
    have hname (s : Text) : skipSpace (literal .ascii name ++ s) =
        .scalar '"' :: (name.flatMap (literalUnit .ascii) ++ .scalar '"' :: s) := by
      rw [literal, List.append_assoc]
      rfl
    have hvalue (s : Text) : Reads (skipSpace (.scalar ' ' :: (literal .ascii t ++ s)))
        (.value (.string t.paired)) s := by
      rw [skipSpace_of_isSpace (by decide), literal, List.append_assoc]
      exact .string (readString_ascii t s)
    cases ms with
    | nil =>
      rw [List.map_singleton, compactMembers, compact, List.append_assoc, List.cons_append,
        List.cons_append, hname]
      exact .lastMember (readString_ascii name _) rfl (hvalue _) rfl
    | cons w ms =>
      have hw : (w :: ms).map (fun m => (m.1, Json.string m.2)) ≠ [] := List.cons_ne_nil _ _
      rw [List.map_cons, compactMembers.eq_3 _ _ _ _ hw, compact]
      simp only [List.append_assoc, List.cons_append]
      rw [hname]
      exact .member (readString_ascii name _) rfl (hvalue _) rfl (ih (List.cons_ne_nil _ _))

/-- An object of texts is read back from its line. -/
theorem read_compact_ofTexts {members : List (Text × Text)}
    (hnames : ((pairedTexts members).map Prod.fst).Nodup) :
    read (compact .ascii (ofTexts members)) = .ok (ofTexts (pairedTexts members)) := by
  cases members with
  | nil => rfl
  | cons m ms =>
    have hreads := reads_compactTexts [] (List.cons_ne_nil m ms)
    have hobject := Reads.object
      (fun rest hrest => not_reads (.inr (.inl rfl)) (hrest ▸ hreads)) hreads
    have hnames' : (((pairedTexts (m :: ms)).map fun m => (m.1, Json.string m.2)).map
        Prod.fst).Nodup := by rwa [List.map_map]
    rw [Table.ofList_eq hnames'] at hobject
    exact read_eq_ok.mpr ⟨rfl, [], hobject, rfl⟩

theorem isGraphic_compactTexts (members : List (Text × Text)) :
    IsGraphic (compactMembers .ascii (members.map fun m => (m.1, .string m.2))) := by
  have hcolon : IsGraphic [.scalar ':', .scalar ' '] := fun x hx => by revert x; decide
  have hcomma : IsGraphic [.scalar ',', .scalar ' '] := fun x hx => by revert x; decide
  have hmember (m : Text × Text) : IsGraphic
      (literal .ascii m.1 ++ .scalar ':' :: .scalar ' ' :: literal .ascii m.2) :=
    (isGraphic_ascii m.1).append (hcolon.append (isGraphic_ascii m.2))
  induction members with
  | nil => exact isGraphic_nil
  | cons m ms ih =>
    cases ms with
    | nil =>
      rw [List.map_singleton, compactMembers, compact]
      exact hmember m
    | cons w ms =>
      have hw : (w :: ms).map (fun m => (m.1, Json.string m.2)) ≠ [] := List.cons_ne_nil _ _
      rw [List.map_cons, compactMembers.eq_3 _ _ _ _ hw, compact]
      exact (hmember m).append (hcomma.append ih)

/-- The line of an object of texts is printable. -/
theorem isGraphic_compact_ofTexts (members : List (Text × Text)) :
    IsGraphic (compact .ascii (ofTexts members)) :=
  ((isGraphic_singleton (by decide)).append (isGraphic_compactTexts members)).append
    (isGraphic_singleton (by decide))

/-- Nothing that is printable ends a line. -/
theorem IsGraphic.isLine {s : Text} (h : IsGraphic s) : Text.IsLine s :=
  fun c hc => Text.not_endsLine (h c hc).1 (h c hc).2

end Json

end LintReport
