import LintReport.Json.Writer
import LintReport.Proofs.Json.Surviving
import LintReport.Proofs.Text.Table

/-!
Written values. A value without doubles that is laid out over several lines is read back from them
as it was, however its lines are indented and whatever its texts hold.
-/
namespace LintReport.Json

/-- A value that can be read back from its text: it has no doubles, its whole numbers are not too
long, and no two members of an object in it have one name. -/
inductive Writable : Json → Prop
  | null : Writable null
  | bool (b : Bool) : Writable (bool b)
  | int {n : Int} (h : n.natAbs < Nat.pow 10 maxDigits) : Writable (int n)
  | string (s : Text) : Writable (string s)
  | array {items : List Json} (h : ∀ v ∈ items, Writable v) : Writable (array items)
  | object {members : List (Text × Json)} (hnames : (members.map Prod.fst).Nodup)
      (h : ∀ m ∈ members, Writable m.2) : Writable (object members)

/-- The units that can follow a value in a text. -/
def delimiters : List CodePoint := [.scalar ',', .scalar '\n', .scalar ']', .scalar '}']

/-- A text with which a value before it has come to its end. -/
def Delimits (r : Text) : Prop := ∀ c ∈ r.head?, c ∈ delimiters

theorem delimits_cons {c : CodePoint} (hc : c ∈ delimiters) (s : Text) : Delimits (c :: s) := by
  intro d hd
  rwa [← Option.some.inj hd]

theorem delimits_nil : Delimits [] := fun _ hc => nomatch hc

/-! ### Whole numbers -/

section Whole

variable {r : Text}

/-- A number does not go on in a text that delimits it. -/
theorem Delimits.spans (h : Delimits r) :
    spanDigits r = ([], r) ∧ spanFraction r = ([], r) ∧ spanExponent r = (none, r) := by
  cases r with
  | nil => exact ⟨rfl, rfl, rfl⟩
  | cons c s =>
    have hc := h c rfl
    simp only [delimiters, List.mem_cons, List.not_mem_nil, or_false] at hc
    rcases hc with rfl | rfl | rfl | rfl <;> exact ⟨rfl, rfl, rfl⟩

theorem spanDigits_ofChars {cs : List Char} (hcs : ∀ c ∈ cs, c.isDigit = true)
    (hr : spanDigits r = ([], r)) :
    spanDigits (Text.ofChars cs ++ r) = (cs.map (·.toNat - 48), r) := by
  induction cs with
  | nil => exact hr
  | cons c cs ih =>
    obtain ⟨hc, hcs⟩ := List.forall_mem_cons.mp hcs
    have hrest : Text.spanDigits CodePoint.asciiDigit? (Text.ofChars cs ++ r) = _ := ih hcs
    have hdigit : (CodePoint.scalar c).asciiDigit? = some (c.toNat - 48) := by
      simp [CodePoint.asciiDigit?, hc]
    change Text.spanDigits CodePoint.asciiDigit? (.scalar c :: (Text.ofChars cs ++ r)) = _
    rw [Text.spanDigits, hdigit, hrest]
    rfl

theorem ofDigits_map (cs : List Char) :
    ofDigits (cs.map (·.toNat - 48)) = Nat.ofDigitChars 10 cs 0 := by
  rw [ofDigits, List.foldl_map]
  rfl

/-- A number is written without leading zeros. -/
theorem toDigits_head {n : Nat} (h : 0 < n) :
    ∃ c cs, Nat.toDigits 10 n = c :: cs ∧ c ≠ '0' := by
  induction n using Nat.strongRecOn with
  | ind n ih =>
    by_cases hn : n < 10
    · have hchar : ∀ m < 10, 0 < m → m.digitChar ≠ '0' := by decide
      exact ⟨_, [], Nat.toDigits_of_lt_base hn, hchar n hn h⟩
    · obtain ⟨c, cs, hcs, hc⟩ := ih (n / 10) (by omega) (by omega)
      refine ⟨c, cs ++ [(n % 10).digitChar], ?_, hc⟩
      rw [Nat.toDigits_of_base_le (by decide) (by omega), hcs]
      rfl

/-- A number starts with a digit. -/
theorem ofNat_head (n : Nat) : ∃ d s, Text.ofNat n = .scalar d :: s ∧ d.isDigit = true := by
  obtain ⟨c, cs, hcs⟩ := List.exists_cons_of_ne_nil (Nat.toDigits_ne_nil (n := n) (b := 10))
  refine ⟨c, Text.ofChars cs, by rw [Text.ofNat, hcs]; rfl, ?_⟩
  exact Nat.isDigit_of_mem_toDigits (b := 10) (by decide) (by decide) (hcs ▸ List.mem_cons_self)

theorem ne_of_isDigit {c d : Char} (hd : d.isDigit = true) (hc : c.isDigit = false := by decide) :
    c ≠ d := by
  rintro rfl
  rw [hc] at hd
  cases hd

theorem spanWhole_ofNat (n : Nat) (hr : spanDigits r = ([], r)) :
    spanWhole (Text.ofNat n ++ r) = ((Nat.toDigits 10 n).map (·.toNat - 48), r) := by
  have hspan : spanDigits (Text.ofNat n ++ r) = ((Nat.toDigits 10 n).map (·.toNat - 48), r) :=
    spanDigits_ofChars
      (fun c hc => Nat.isDigit_of_mem_toDigits (by decide) (by decide) hc) hr
  rcases Nat.eq_zero_or_pos n with rfl | hn
  · rfl
  · obtain ⟨c, cs, hcs, hc⟩ := toDigits_head hn
    rw [← hspan, Text.ofNat, hcs]
    unfold spanWhole
    split
    · next s hs => exact absurd (CodePoint.scalar.inj (List.cons.inj hs).1) hc
    · rfl

theorem length_toDigits_le {n k : Nat} (hk : 0 < k) (h : n < Nat.pow 10 k) :
    (Nat.toDigits 10 n).length ≤ k :=
  (Nat.length_toDigits_le_iff (by decide) hk).mpr h

/-- The digits of a number are those of the number itself. -/
theorem numeral_toDigits {n : Nat} (hn : n < Nat.pow 10 maxDigits) (negative : Bool) :
    numeral negative ((Nat.toDigits 10 n).map (·.toNat - 48)) [] none =
      .ok (.int (if negative then -(n : Int) else n)) := by
  have hlength : (Nat.toDigits 10 n).length ≤ maxDigits := length_toDigits_le (by decide) hn
  rw [numeral, if_pos ⟨rfl, rfl⟩, if_pos (by rwa [List.length_map]), ofDigits_map,
    Nat.ofDigitChars_toDigits (by decide) (by decide)]

theorem readNumber_ofInt {n : Int} (hn : n.natAbs < Nat.pow 10 maxDigits) (hr : Delimits r) :
    readNumber (Text.ofInt n ++ r) = .ok (.int n, r) := by
  obtain ⟨hdigits, hfraction, hexponent⟩ := hr.spans
  have hne (m : Nat) : (Nat.toDigits 10 m).map (·.toNat - 48) ≠ [] := by
    simp [Nat.toDigits_ne_nil]
  cases n with
  | ofNat m =>
    have hm : m < Nat.pow 10 maxDigits := hn
    have hminus : spanMinus (Text.ofNat m ++ r) = (false, Text.ofNat m ++ r) := by
      obtain ⟨d, s, hs, hd⟩ := ofNat_head m
      rw [hs]
      unfold spanMinus
      split
      · next h => exact absurd (CodePoint.scalar.inj (List.cons.inj h).1).symm (ne_of_isDigit hd)
      · rfl
    rw [Text.ofInt, readNumber_eq hminus (spanWhole_ofNat m hdigits) hfraction hexponent,
      if_neg (hne m), numeral_toDigits hm]
    rfl
  | negSucc m =>
    have hm : m + 1 < Nat.pow 10 maxDigits := hn
    have hminus : spanMinus (.scalar '-' :: Text.ofNat (m + 1) ++ r) =
        (true, Text.ofNat (m + 1) ++ r) := rfl
    rw [Text.ofInt, readNumber_eq hminus (spanWhole_ofNat (m + 1) hdigits) hfraction hexponent,
      if_neg (hne (m + 1)), numeral_toDigits hm]
    rfl

theorem readWord?_of_digit {d : Char} (hd : d.isDigit = true) (s : Text) :
    readWord? (.scalar d :: s) = none ∧ readWord? (.scalar '-' :: .scalar d :: s) = none := by
  have hne : ∀ c ∈ ['n', 't', 'f', 'N', 'I', '-'], c ≠ d := by
    intro c hc
    have hdigit : ∀ c ∈ ['n', 't', 'f', 'N', 'I', '-'], c.isDigit = false := by simp
    exact ne_of_isDigit hd (hdigit c hc)
  simp only [List.forall_mem_cons] at hne
  obtain ⟨h₁, h₂, h₃, h₄, h₅, h₆, -⟩ := hne
  constructor <;> simp [readWord?, words, Text.ofString, Text.after?, *]

theorem opens_of_digit {d : Char} (hd : d.isDigit = true) (s : Text) :
    opens (.scalar d :: s) = false := by
  have hne {c : Char} {t : Text} (hc : c.isDigit = false)
      (h : .scalar d :: s = .scalar c :: t) : False :=
    ne_of_isDigit hd hc (CodePoint.scalar.inj (List.cons.inj h).1).symm
  rw [opens]
  all_goals exact fun t h => hne (by decide) h

theorem reads_int {n : Int} (hn : n.natAbs < Nat.pow 10 maxDigits) (hr : Delimits r) :
    Reads (Text.ofInt n ++ r) (.value (.int n)) r := by
  have hnumber := readNumber_ofInt hn hr
  cases n with
  | ofNat m =>
    obtain ⟨d, s, hs, hd⟩ := ofNat_head m
    rw [Text.ofInt, hs, List.cons_append] at hnumber ⊢
    exact .number (opens_of_digit hd _) (readWord?_of_digit hd _).1 hnumber
  | negSucc m =>
    obtain ⟨d, s, hs, hd⟩ := ofNat_head (m + 1)
    rw [Text.ofInt, hs, List.cons_append, List.cons_append] at hnumber ⊢
    exact .number rfl (readWord?_of_digit hd _).2 hnumber

theorem ofInt_head (n : Int) : ∃ c s, Text.ofInt n = c :: s ∧ isSpace c = false := by
  have hdigit {d : Char} (hd : d.isDigit = true) : isSpace (.scalar d) = false := by
    have hne : ∀ c ∈ [' ', '\t', '\n', '\r'], c.isDigit = false := by simp
    simp only [List.forall_mem_cons] at hne
    obtain ⟨h₁, h₂, h₃, h₄, -⟩ := hne
    simp [isSpace, (ne_of_isDigit hd h₁).symm, (ne_of_isDigit hd h₂).symm,
      (ne_of_isDigit hd h₃).symm, (ne_of_isDigit hd h₄).symm]
  cases n with
  | ofNat m =>
    obtain ⟨d, s, hs, hd⟩ := ofNat_head m
    exact ⟨_, _, hs, hdigit hd⟩
  | negSucc m => exact ⟨_, _, rfl, by decide⟩

end Whole

/-! ### Texts -/

theorem ofNat_value (c : CodePoint) : CodePoint.ofNat c.value = c := by
  cases c with
  | scalar c =>
    have hc : c.toNat < 0xD800 ∨ 0xDFFF < c.toNat ∧ c.toNat < 0x110000 := c.valid
    rw [CodePoint.value, CodePoint.ofNat, dif_neg (by omega), if_pos (by omega), Char.ofNat_toNat]
  | surrogate half =>
    have hhalf := half.isLt
    rw [CodePoint.value, CodePoint.ofNat, dif_pos (by omega)]
    exact congrArg _ (Fin.ext (Nat.add_sub_cancel_left ..))

theorem hexDigit?_digitChar : ∀ k < 16, hexDigit? (.scalar k.digitChar) = some k := by decide

theorem hex4?_hexDigits {n : Nat} (hn : n < 0x10000) :
    ∃ a b c d, Text.ofChars (hexDigits 4 n) = [a, b, c, d] ∧ hex4? a b c d = some n := by
  refine ⟨_, _, _, _, rfl, ?_⟩
  rw [hex4?, hexDigit?_digitChar _ (Nat.mod_lt _ (by decide)),
    hexDigit?_digitChar _ (Nat.mod_lt _ (by decide)),
    hexDigit?_digitChar _ (Nat.mod_lt _ (by decide)),
    hexDigit?_digitChar _ (Nat.mod_lt _ (by decide))]
  simp only [Option.bind_eq_bind, Option.bind_some, Option.pure_def, Option.some.injEq]
  omega

theorem isGraphic_hexEscape (n : Nat) : IsGraphic (hexEscape n) := by
  have hdigit : ∀ k < 16, 0x20 ≤ k.digitChar.toNat ∧ k.digitChar.toNat < 0x80 := by decide
  have hdigits (k : Nat) : 0x20 ≤ (k % 16).digitChar.toNat ∧ (k % 16).digitChar.toNat < 0x80 :=
    hdigit _ (Nat.mod_lt _ (by decide))
  intro x hx
  simp only [hexEscape, hexDigits, Text.ofChars, List.nil_append, List.cons_append, List.map_cons,
    List.map_nil, List.mem_cons, List.not_mem_nil, or_false] at hx
  rcases hx with rfl | rfl | rfl | rfl | rfl | rfl
  · decide
  · decide
  all_goals exact hdigits _

/-- A numbered unit is one by itself, unless it is the first half of a surrogate pair and the second
one follows. -/
theorem textOfPieces_numbered {n : Nat} {ps : List Piece}
    (h : ∀ low, ps.head? = some (.numbered low) →
      ¬(0xD800 ≤ n ∧ n < 0xDC00 ∧ 0xDC00 ≤ low ∧ low < 0xE000)) :
    textOfPieces (.numbered n :: ps) = .ofNat n :: textOfPieces ps := by
  cases ps with
  | nil => rfl
  | cons p ps =>
    cases p with
    | plain c => rfl
    | numbered low => rw [textOfPieces, if_neg (h low rfl)]

/-- A unit of a literal is one piece, which is that unit. -/
theorem Pieces.literalUnit (c : CodePoint) {s r : Text} {ps : List Piece} (h : Pieces s ps r) :
    ∃ p, Pieces (literalUnit .unicode c ++ s) (p :: ps) r ∧
      textOfPieces (p :: ps) = c :: textOfPieces ps := by
  unfold Json.literalUnit
  split
  case h_8 hquote hslash _ _ _ _ _ =>
    split
    · next hc =>
      obtain ⟨a, b, c', d, hchars, hnumber⟩ := hex4?_hexDigits (n := c.value) (by omega)
      refine ⟨.numbered c.value, ?_, ?_⟩
      · rw [hexEscape, hchars]
        exact .numbered hnumber h
      · rw [textOfPieces_numbered fun low _ => by omega, ofNat_value]
    · next hc =>
      rw [if_pos (.inl rfl)]
      exact ⟨.plain c, .plain hquote hslash (Nat.le_of_not_lt hc) h, rfl⟩
  all_goals exact ⟨.plain _, .escaped rfl h, rfl⟩

theorem readString_literal (t r : Text) :
    readString (t.flatMap (literalUnit .unicode) ++ .scalar '"' :: r) = .ok (t, r) := by
  rw [readString_eq_ok]
  induction t with
  | nil => exact ⟨[], .closing, rfl⟩
  | cons c t ih =>
    obtain ⟨ps, hpieces, ht⟩ := ih
    obtain ⟨p, hunit, hp⟩ := hpieces.literalUnit c
    exact ⟨p :: ps, by rwa [List.flatMap_cons, List.append_assoc], by rw [hp, ← ht]⟩

/-! ### Layouts -/

section Layout

variable {unit : Text} {depth : Nat}

theorem skipSpace_append {y : Text} (hy : ∀ c ∈ y, isSpace c = true) (s : Text) :
    skipSpace (y ++ s) = skipSpace s :=
  List.dropWhile_append_of_pos hy

theorem isSpace_lineBreak (hunit : ∀ c ∈ unit, isSpace c = true) :
    ∀ c ∈ lineBreak unit depth, isSpace c = true := by
  intro c hc
  rcases List.mem_cons.mp hc with rfl | hc
  · decide
  · obtain ⟨u, hu, hcu⟩ := List.mem_flatten.mp hc
    rw [List.eq_of_mem_replicate hu] at hcu
    exact hunit c hcu

theorem delimits_lineBreak (s : Text) : Delimits (lineBreak unit depth ++ s) :=
  delimits_cons (by decide) _

/-- A value is laid out from a unit on that is no space. -/
theorem Writable.head {v : Json} (h : Writable v) :
    ∃ c t, pretty unit depth v = c :: t ∧ isSpace c = false := by
  cases h with
  | null => exact ⟨_, _, rfl, by decide⟩
  | bool b => cases b <;> exact ⟨_, _, rfl, by decide⟩
  | int h => exact ofInt_head _
  | string s => exact ⟨_, _, rfl, by decide⟩
  | @array items h => cases items <;> exact ⟨_, _, rfl, by decide⟩
  | @object members hnames h => cases members <;> exact ⟨_, _, rfl, by decide⟩

theorem Writable.skipSpace {v : Json} (h : Writable v) (s : Text) :
    skipSpace (pretty unit depth v ++ s) = pretty unit depth v ++ s := by
  obtain ⟨c, t, hc, hspace⟩ : ∃ c t, pretty unit depth v = c :: t ∧ isSpace c = false := h.head
  rw [hc]
  exact skipSpace_of_not_isSpace (by simp [hspace])

/-- A value is read back from its layout. -/
def ReadBack (unit : Text) (v : Json) : Prop :=
  ∀ depth r, Delimits r → Reads (pretty unit depth v ++ r) (.value v) r

theorem reads_prettyItems (hunit : ∀ c ∈ unit, isSpace c = true) (depth d : Nat) (r : Text)
    {items : List Json} (hne : items ≠ []) (hwritable : ∀ v ∈ items, Writable v)
    (h : ∀ v ∈ items, ReadBack unit v) :
    Reads (skipSpace (prettyItems unit depth items ++ (lineBreak unit d ++ .scalar ']' :: r)))
      (.items items) r := by
  induction items with
  | nil => exact absurd rfl hne
  | cons v vs ih =>
    obtain ⟨hv, hvs⟩ := List.forall_mem_cons.mp h
    obtain ⟨hwv, hwvs⟩ := List.forall_mem_cons.mp hwritable
    cases vs with
    | nil =>
      rw [prettyItems, List.append_assoc, skipSpace_append (isSpace_lineBreak hunit),
        hwv.skipSpace]
      refine .lastItem (hv _ _ (delimits_lineBreak _)) ?_
      rw [skipSpace_append (isSpace_lineBreak hunit)]
      rfl
    | cons w vs =>
      have hw := List.cons_ne_nil w vs
      rw [prettyItems.eq_3 _ _ _ _ hw, List.append_assoc, List.append_assoc, List.cons_append,
        skipSpace_append (isSpace_lineBreak hunit), hwv.skipSpace]
      exact .item (hv _ _ (delimits_cons (by decide) _)) rfl (ih hw hwvs hvs)

theorem reads_prettyMembers (hunit : ∀ c ∈ unit, isSpace c = true) (depth d : Nat) (r : Text)
    {members : List (Text × Json)} (hne : members ≠ [])
    (hwritable : ∀ m ∈ members, Writable m.2) (h : ∀ m ∈ members, ReadBack unit m.2) :
    Reads (skipSpace (prettyMembers unit depth members ++ (lineBreak unit d ++ .scalar '}' :: r)))
      (.members members) r := by
  induction members with
  | nil => exact absurd rfl hne
  | cons m ms ih =>
    obtain ⟨name, v⟩ := m
    obtain ⟨hv, hms⟩ := List.forall_mem_cons.mp h
    obtain ⟨hwv, hwms⟩ := List.forall_mem_cons.mp hwritable
    have hname (s : Text) : Json.skipSpace (literal .unicode name ++ s) =
        .scalar '"' :: (name.flatMap (literalUnit .unicode) ++ .scalar '"' :: s) := by
      rw [literal, List.append_assoc]
      rfl
    have hvalue {s : Text} (hs : Delimits s) :
        Reads (Json.skipSpace (.scalar ' ' :: (pretty unit depth v ++ s))) (.value v) s := by
      rw [skipSpace_of_isSpace (by decide), hwv.skipSpace]
      exact hv depth s hs
    cases ms with
    | nil =>
      rw [prettyMembers, List.append_assoc, List.append_assoc, List.cons_append, List.cons_append,
        skipSpace_append (isSpace_lineBreak hunit), hname]
      refine .lastMember (readString_literal name _) rfl (hvalue (delimits_lineBreak _)) ?_
      rw [skipSpace_append (isSpace_lineBreak hunit)]
      rfl
    | cons w ms =>
      have hw := List.cons_ne_nil w ms
      rw [prettyMembers.eq_3 _ _ _ _ _ hw]
      simp only [List.append_assoc, List.cons_append]
      rw [skipSpace_append (isSpace_lineBreak hunit), hname]
      exact .member (readString_literal name _) rfl (hvalue (delimits_cons (by decide) _)) rfl
        (ih hw hwms hms)

/-- Nothing that is read starts with a closing mark or a byte-order mark. -/
theorem not_reads {c : CodePoint} (hc : c = .scalar ']' ∨ c = .scalar '}' ∨ c = .scalar '\uFEFF')
    {s r : Text} {x : Parsed} : ¬ Reads (c :: s) x r := by
  intro h
  generalize ht : c :: s = t at h
  induction h with
  | word _ h => subst ht; rcases hc with rfl | rfl | rfl <;> cases h
  | number _ _ h => subst ht; rcases hc with rfl | rfl | rfl <;> cases h
  | lastItem _ _ ih => exact ih ht
  | item _ _ _ ih => exact ih ht
  | _ => rcases hc with rfl | rfl | rfl <;> cases ht

theorem Writable.readBack (hunit : ∀ c ∈ unit, isSpace c = true) {v : Json} (h : Writable v) :
    ReadBack unit v := by
  induction h with
  | null => exact fun depth r hr => .word rfl rfl
  | bool b => cases b <;> exact fun depth r hr => .word rfl rfl
  | int hn => exact fun depth r hr => reads_int hn hr
  | string s =>
    intro depth r hr
    change Reads (literal .unicode s ++ r) _ r
    rw [literal, List.append_assoc]
    exact .string (readString_literal s r)
  | @array items h ih =>
    intro depth r hr
    cases items with
    | nil => exact .emptyArray rfl
    | cons v vs =>
      have hne := List.cons_ne_nil v vs
      have hreads := reads_prettyItems hunit (depth + 1) depth r hne h ih
      rw [pretty.eq_2 _ _ _ hne]
      simp only [List.cons_append, List.append_assoc]
      exact .array (fun rest hrest => not_reads (.inl rfl) (hrest ▸ hreads)) hreads
  | @object members hnames h ih =>
    intro depth r hr
    cases members with
    | nil => exact .emptyObject rfl
    | cons m ms =>
      have hne := List.cons_ne_nil m ms
      have hreads := reads_prettyMembers hunit (depth + 1) depth r hne h ih
      have hobject := Reads.object
        (fun rest hrest => not_reads (.inr (.inl rfl)) (hrest ▸ hreads)) hreads
      rw [pretty.eq_4 _ _ _ hne]
      simp only [List.cons_append, List.append_assoc]
      rwa [Table.ofList_eq hnames] at hobject

/-- A laid out value is read back as it was, spaces behind it left out. -/
theorem Writable.read_pretty_append (hunit : ∀ c ∈ unit, isSpace c = true) {v : Json}
    (h : Writable v) {z : Text} (hz : ∀ c ∈ z, isSpace c = true) (hdelimits : Delimits z) :
    read (pretty unit depth v ++ z) = .ok v := by
  have hreads := h.readBack hunit depth z hdelimits
  have hmark : hasMark (pretty unit depth v ++ z) = false := by
    rw [hasMark]
    rintro s hs
    exact not_reads (.inr (.inr rfl)) (hs ▸ hreads)
  have hend : Json.skipSpace z = [] := by
    rw [← List.append_nil z, skipSpace_append hz]
    rfl
  exact read_eq_ok.mpr ⟨hmark, z, by rwa [h.skipSpace], hend⟩

theorem Writable.read_pretty (hunit : ∀ c ∈ unit, isSpace c = true) {v : Json} (h : Writable v) :
    read (pretty unit depth v) = .ok v := by
  have hread : read (pretty unit depth v ++ []) = .ok v :=
    h.read_pretty_append hunit (by simp) delimits_nil
  rwa [List.append_nil] at hread

end Layout

end LintReport.Json
