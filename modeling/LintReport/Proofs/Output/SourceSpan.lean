import LintReport.Output.SourceSpan
import LintReport.Proofs.Text.Utf8

/-!
Line ends, found in a whole source from the left: CR LF, a CR on its own and an LF on its own. The
scan of a span reads the source once, looks one byte ahead at a CR and stops where the span stops,
and it counts the line ends that lie before the two ends of the span. Counted in the characters of a
text the numbers are the same, as no byte of another character is a CR or an LF.
-/
namespace LintReport.Output

/-! ### Line ends -/

section LineEnds

variable {α : Type} {cr lf : α} {offset : Nat} {c : α} {s t : List α} {k : Int}

/-- Does a line end with this unit, when another one may follow? -/
def EndsWith (cr lf c : α) (next : Option α) : Prop := c = lf ∨ (c = cr ∧ next ≠ some lf)

/-- A unit ends a line on its own account or as the first of a pair, and that pair is a CR LF. -/
theorem endsWith_of_not_pair {d : α} (hpair : ¬ (c = cr ∧ d = lf)) :
    EndsWith cr lf c (some d) ↔ c = cr ∨ c = lf := by
  constructor
  · rintro (hfeed | ⟨hreturn, -⟩)
    · exact .inr hfeed
    · exact .inl hreturn
  · rintro (hreturn | hfeed)
    · exact .inr ⟨hreturn, fun hnext => hpair ⟨hreturn, Option.some.inj hnext⟩⟩
    · exact .inl hfeed

variable [DecidableEq α]

instance (cr lf c : α) (next : Option α) : Decidable (EndsWith cr lf c next) :=
  inferInstanceAs (Decidable (_ ∨ _))

/-- The places behind the line ends of a source whose first unit has the number `offset`. -/
def lineEnds (cr lf : α) (offset : Nat) : List α → List Nat
  | [] => []
  | [c] => if c = cr ∨ c = lf then [offset + 1] else []
  | c :: d :: s =>
    if c = cr ∧ d = lf then (offset + 2) :: lineEnds cr lf (offset + 2) s
    else if c = cr ∨ c = lf then (offset + 1) :: lineEnds cr lf (offset + 1) (d :: s)
    else lineEnds cr lf (offset + 1) (d :: s)

/-- How many places lie within the first `k` units? -/
def countWithin (k : Int) (places : List Nat) : Nat :=
  places.countP fun place => decide (Int.ofNat place ≤ k)

theorem countWithin_append (k : Int) (places places' : List Nat) :
    countWithin k (places ++ places') = countWithin k places + countWithin k places' :=
  List.countP_append

theorem countWithin_ite {p : Prop} [Decidable p] {place : Nat} (hk : place ≤ k) :
    countWithin k (if p then [place] else []) = if p then 1 else 0 := by
  split
  · exact List.countP_eq_length.mpr (by simpa using hk)
  · rfl

theorem countWithin_eq_zero {places : List Nat} (h : ∀ place ∈ places, k < place) :
    countWithin k places = 0 :=
  List.countP_eq_zero.mpr fun place hplace => by simpa using h place hplace

theorem countWithin_mono {k k' : Int} (h : k ≤ k') (places : List Nat) :
    countWithin k places ≤ countWithin k' places := by
  refine List.countP_mono_left fun place _ hplace => ?_
  simp only [decide_eq_true_eq] at hplace ⊢
  omega

/-- To find the line ends it is enough to look one unit ahead. -/
theorem lineEnds_cons (hne : cr ≠ lf) (offset : Nat) (c : α) (s : List α) :
    lineEnds cr lf offset (c :: s) =
      (if EndsWith cr lf c s.head? then [offset + 1] else []) ++ lineEnds cr lf (offset + 1) s := by
  have hfeed (offset : Nat) (s : List α) :
      lineEnds cr lf offset (lf :: s) = (offset + 1) :: lineEnds cr lf (offset + 1) s := by
    cases s with
    | nil => simp [lineEnds]
    | cons d s => simp [lineEnds, hne.symm]
  cases s with
  | nil => simp [lineEnds, EndsWith, or_comm]
  | cons d s =>
    by_cases hpair : c = cr ∧ d = lf
    · obtain ⟨rfl, rfl⟩ := hpair
      have hnot : ¬ EndsWith c d c (some d) := by simp [EndsWith, hne]
      rw [lineEnds, if_pos ⟨rfl, rfl⟩, List.head?_cons, if_neg hnot, List.nil_append, hfeed]
    · rw [lineEnds, if_neg hpair, List.head?_cons]
      simp only [endsWith_of_not_pair hpair]
      split <;> rfl

theorem lt_of_mem_lineEnds (hne : cr ≠ lf) {place : Nat} (h : place ∈ lineEnds cr lf offset s) :
    offset < place := by
  induction s generalizing offset with
  | nil => cases h
  | cons c s ih =>
    rw [lineEnds_cons hne] at h
    rcases List.mem_append.mp h with h | h
    · split at h
      · rw [List.mem_singleton.mp h]
        exact Nat.lt_succ_self offset
      · cases h
    · exact Nat.lt_of_succ_lt (ih h)

/-- No line end lies within the units before the source. -/
theorem countWithin_lineEnds_of_le (hne : cr ≠ lf) (hk : k ≤ offset) :
    countWithin k (lineEnds cr lf offset s) = 0 := by
  refine countWithin_eq_zero fun place hplace => ?_
  have hlt := lt_of_mem_lineEnds hne hplace
  omega

/-- The line ends within `k` units are that of the first unit, if it is one, and those behind it. -/
theorem countWithin_lineEnds_cons (hne : cr ≠ lf) (hk : offset < k) :
    countWithin k (lineEnds cr lf offset (c :: s)) =
      (if EndsWith cr lf c s.head? then 1 else 0) +
        countWithin k (lineEnds cr lf (offset + 1) s) := by
  rw [lineEnds_cons hne, countWithin_append, countWithin_ite (by omega)]

/-- Units that end no line only move what comes after them. -/
theorem lineEnds_append (hne : cr ≠ lf) (hs : ∀ c ∈ s, c ≠ cr ∧ c ≠ lf) :
    lineEnds cr lf offset (s ++ t) = lineEnds cr lf (offset + s.length) t := by
  induction s generalizing offset with
  | nil => rfl
  | cons c s ih =>
    obtain ⟨hc, hs⟩ := List.forall_mem_cons.mp hs
    have hnot : ¬ EndsWith cr lf c (s ++ t).head? := by simp [EndsWith, hc]
    rw [List.cons_append, lineEnds_cons hne, if_neg hnot, List.nil_append, ih hs, List.length_cons,
      Nat.add_assoc, Nat.add_comm 1]

end LineEnds

/-! ### The scan -/

variable {source : Bytes} {start stop k : Int} {offset line left : Nat} {found : Option Nat}

theorem endsLine_iff {b : UInt8} {rest : Bytes} :
    endsLine b rest = true ↔ EndsWith 0x0D 0x0A b rest.head? := decide_eq_true_iff

/-- The line behind a byte. -/
theorem line_of_endsLine {b : UInt8} {rest : Bytes} (hk : offset < k) :
    (if endsLine b rest then line + 1 else line) +
        countWithin k (lineEnds 0x0D 0x0A (offset + 1) rest) =
      line + countWithin k (lineEnds 0x0D 0x0A offset (b :: rest)) := by
  rw [countWithin_lineEnds_cons (by decide) hk]
  simp only [← endsLine_iff]
  split <;> omega

/-- The line that the scan reaches is as many lines further as line ends lie on the way. -/
theorem fst_scanLines :
    (scanLines start offset line found left source).1 =
      line + countWithin (offset + left) (lineEnds 0x0D 0x0A offset source) := by
  induction left generalizing offset line found source with
  | zero => rw [scanLines, countWithin_lineEnds_of_le (by decide) (by simp)]; rfl
  | succ left ih =>
    cases source with
    | nil => rfl
    | cons b rest =>
      have hreach : ((offset + 1 : Nat) : Int) + left = offset + (left + 1 : Nat) := by omega
      rw [scanLines, ih, hreach, line_of_endsLine (by omega)]

/-- A byte that the scan does not meet, or has met already, leaves the line that was found. -/
theorem snd_scanLines_of_not_mem
    (h : start < offset ∨ (offset + min left source.length : Nat) ≤ start) :
    (scanLines start offset line found left source).2 = found := by
  induction left generalizing offset line found source with
  | zero => rfl
  | succ left ih =>
    cases source with
    | nil => rfl
    | cons b rest =>
      rw [List.length_cons] at h
      have hmiss : (offset : Int) ≠ start := by omega
      rw [scanLines, if_neg hmiss]
      exact ih (by omega)

/-- The scan finds the line of a byte that it meets. -/
theorem snd_scanLines_of_mem (hstart : offset ≤ start)
    (hstop : start < (offset + min left source.length : Nat)) :
    (scanLines start offset line found left source).2 =
      some (line + countWithin start (lineEnds 0x0D 0x0A offset source)) := by
  induction left generalizing offset line found source with
  | zero => omega
  | succ left ih =>
    cases source with
    | nil => simp only [List.length_nil] at hstop; omega
    | cons b rest =>
      rw [List.length_cons] at hstop
      rw [scanLines]
      by_cases hmet : (offset : Int) = start
      · rw [if_pos hmet, snd_scanLines_of_not_mem (.inl (by omega)),
          countWithin_lineEnds_of_le (by decide) (by omega)]
        rfl
      · rw [if_neg hmet, ih (by omega) (by omega), line_of_endsLine (by omega)]

/-! ### Spans -/

/-- How many line ends lie within the first `k` bytes of a source? -/
def lineEndsInBytes (source : Bytes) (k : Int) : Nat :=
  countWithin k (lineEnds 0x0D 0x0A 0 source)

/-- How many line ends lie within the first `k` characters of a text? -/
def lineEndsInText (s : Text) (k : Int) : Nat :=
  countWithin k (lineEnds (.scalar '\r') (.scalar '\n') 0 s)

/-- Where a span stops: within the source, whatever its end is. -/
def reach (source : Bytes) (stop : Int) : Int := max 0 (min stop source.length)

theorem scanLines_reach (source : Bytes) (start stop : Int) :
    (scanLines start 0 1 none (min stop source.length).toNat source).1 =
      1 + lineEndsInBytes source (reach source stop) := by
  have hreach : ((0 : Nat) : Int) + (min stop source.length).toNat = reach source stop := by
    rw [reach]
    omega
  rw [fst_scanLines, hreach, lineEndsInBytes]

/-- The lines of a span that does not start before the source are counted by the line ends before
its start and before its end. -/
theorem spanLines_of_nonneg (source : Bytes) (stop : Int) (hstart : 0 ≤ start) :
    spanLines source (some start) (some stop) =
      (1 + lineEndsInBytes source (min start (reach source stop)),
        some (1 + lineEndsInBytes source (reach source stop))) := by
  have hlast := scanLines_reach source start stop
  have hlength : (min (min stop source.length).toNat source.length : Nat) = reach source stop := by
    rw [reach]
    omega
  rw [spanLines]
  dsimp only
  rw [hlast]
  refine congrArg (·, _) ?_
  by_cases hmet : start < reach source stop
  · rw [snd_scanLines_of_mem hstart (by omega), Int.min_eq_left (by omega)]
    rfl
  · rw [snd_scanLines_of_not_mem (.inr (by omega)), Int.min_eq_right (by omega)]
    rfl

/-- No byte before a source is met, and then the span starts on the line on which it ends. -/
theorem spanLines_of_neg (source : Bytes) (stop : Int) (hstart : start < 0) :
    spanLines source (some start) (some stop) =
      (1 + lineEndsInBytes source (reach source stop),
        some (1 + lineEndsInBytes source (reach source stop))) := by
  rw [spanLines]
  dsimp only
  rw [scanLines_reach, snd_scanLines_of_not_mem (.inl (by omega))]
  rfl

/-! ### Bytes and characters -/

/-- A byte of a character is the number of that character or lies outside ASCII. -/
theorem toNat_of_mem_utf8 {c : Char} {b : UInt8} (h : b ∈ String.utf8EncodeChar c) :
    b.toNat = c.val.toNat ∨ 0x80 ≤ b.toNat := by
  have hnat {n : Nat} (hn : n < 256) : (UInt8.ofNat n).toNat = n := UInt8.toNat_ofNat_of_lt hn
  unfold String.utf8EncodeChar at h
  dsimp only at h
  split at h
  · rw [List.mem_singleton.mp h]
    exact .inl (hnat (by omega))
  · refine .inr ?_
    split at h
    · simp only [List.mem_cons, List.not_mem_nil, or_false] at h
      rcases h with rfl | rfl <;> rw [hnat (by omega)] <;> omega
    · split at h
      · simp only [List.mem_cons, List.not_mem_nil, or_false] at h
        rcases h with rfl | rfl | rfl <;> rw [hnat (by omega)] <;> omega
      · simp only [List.mem_cons, List.not_mem_nil, or_false] at h
        rcases h with rfl | rfl | rfl | rfl <;> rw [hnat (by omega)] <;> omega

/-- The byte of an ASCII character stands for that character only. -/
theorem eq_of_mem_utf8 {c x : Char} {b : UInt8} (hx : x.val.toNat < 0x80)
    (hb : b.toNat = x.val.toNat) (h : b ∈ String.utf8EncodeChar c) : c = x := by
  rcases toNat_of_mem_utf8 h with hc | hc
  · exact Char.ext (UInt32.toNat_inj.mp (hc.symm.trans hb))
  · omega

theorem utf8EncodeChar_ne_nil (c : Char) : String.utf8EncodeChar c ≠ [] := by
  intro hnil
  have hlength := congrArg List.length hnil
  rw [String.length_utf8EncodeChar, List.length_nil] at hlength
  have hpos := Char.utf8Size_pos c
  omega

/-- The first byte of a text is an LF if its first character is one. -/
theorem head?_utf8 (cs : List Char) :
    ((Text.ofChars cs).flatMap CodePoint.utf8).head? = some 0x0A ↔
      (Text.ofChars cs).head? = some (.scalar '\n') := by
  cases cs with
  | nil => simp [Text.ofChars]
  | cons c cs =>
    obtain ⟨b, bs, hbytes⟩ := List.exists_cons_of_ne_nil (utf8EncodeChar_ne_nil c)
    have hbytes' : (Text.ofChars (c :: cs)).flatMap CodePoint.utf8 =
        (b :: bs) ++ (Text.ofChars cs).flatMap CodePoint.utf8 := by
      rw [← hbytes]
      rfl
    rw [hbytes']
    constructor
    · intro hfeed
      have hb : b = 0x0A := Option.some.inj hfeed
      have hmem : b ∈ String.utf8EncodeChar c := hbytes ▸ List.mem_cons_self
      rw [eq_of_mem_utf8 (x := '\n') (by decide) (hb ▸ rfl) hmem]
      rfl
    · intro hfeed
      cases hfeed
      cases hbytes
      rfl

/-- The bytes of a character end a line if the character does, and then behind the last of them. -/
theorem lineEnds_utf8_cons (offset : Nat) (c : Char) (cs : List Char) :
    lineEnds 0x0D 0x0A offset ((Text.ofChars (c :: cs)).flatMap CodePoint.utf8) =
      (if EndsWith (.scalar '\r') (.scalar '\n') (.scalar c) (Text.ofChars cs).head? then
        [offset + (String.utf8EncodeChar c).length] else []) ++
      lineEnds 0x0D 0x0A (offset + (String.utf8EncodeChar c).length)
        ((Text.ofChars cs).flatMap CodePoint.utf8) := by
  have hbytes : (Text.ofChars (c :: cs)).flatMap CodePoint.utf8 =
      String.utf8EncodeChar c ++ (Text.ofChars cs).flatMap CodePoint.utf8 := rfl
  rw [hbytes]
  by_cases hend : c = '\r' ∨ c = '\n'
  · have hends : EndsWith 0x0D 0x0A (UInt8.ofNat c.val.toNat)
        ((Text.ofChars cs).flatMap CodePoint.utf8).head? ↔
        EndsWith (.scalar '\r') (.scalar '\n') (.scalar c) (Text.ofChars cs).head? := by
      unfold EndsWith
      rw [ne_eq, ne_eq, head?_utf8]
      rcases hend with rfl | rfl <;> simp
    have hsingle : String.utf8EncodeChar c = [UInt8.ofNat c.val.toNat] := by
      rcases hend with rfl | rfl <;> rfl
    rw [hsingle, List.singleton_append, lineEnds_cons (by decide)]
    simp only [hends, List.length_singleton]
  · obtain ⟨hreturn, hfeed⟩ := not_or.mp hend
    have hplain : ∀ b ∈ String.utf8EncodeChar c, b ≠ 0x0D ∧ b ≠ 0x0A := fun b hb =>
      ⟨fun heq => hreturn (eq_of_mem_utf8 (by decide) (heq ▸ rfl) hb),
        fun heq => hfeed (eq_of_mem_utf8 (by decide) (heq ▸ rfl) hb)⟩
    have hnot : ¬ EndsWith (.scalar '\r') (.scalar '\n') (.scalar c) (Text.ofChars cs).head? := by
      simp [EndsWith, hreturn, hfeed]
    rw [lineEnds_append (by decide) hplain, if_neg hnot, List.nil_append]

/-- Up to a character the line ends in the bytes are those in the characters. -/
theorem countWithin_utf8 (cs : List Char) (i offset place : Nat) :
    countWithin (offset + ((Text.ofChars (cs.take i)).flatMap CodePoint.utf8).length : Nat)
        (lineEnds 0x0D 0x0A offset ((Text.ofChars cs).flatMap CodePoint.utf8)) =
      countWithin (place + i : Nat)
        (lineEnds (.scalar '\r') (.scalar '\n') place (Text.ofChars cs)) := by
  induction cs generalizing i offset place with
  | nil => rfl
  | cons c cs ih =>
    cases i with
    | zero =>
      rw [countWithin_lineEnds_of_le (by decide) (by simp [Text.ofChars]),
        countWithin_lineEnds_of_le (by decide) (by simp)]
    | succ i =>
      have hbytes : (Text.ofChars ((c :: cs).take (i + 1))).flatMap CodePoint.utf8 =
          String.utf8EncodeChar c ++ (Text.ofChars (cs.take i)).flatMap CodePoint.utf8 := rfl
      have hchars : Text.ofChars (c :: cs) = .scalar c :: Text.ofChars cs := rfl
      have hplace : place + (i + 1) = place + 1 + i := by omega
      rw [lineEnds_utf8_cons, hbytes, List.length_append, ← Nat.add_assoc, countWithin_append, ih,
        hchars, lineEnds_cons (by decide), hplace, countWithin_append, countWithin_ite (by omega),
        countWithin_ite (by omega)]

/-- The characters of a text before one of its places take as many line ends as their bytes. -/
theorem lineEndsInBytes_utf8 (cs : List Char) (i : Nat) :
    lineEndsInBytes ((Text.ofChars cs).flatMap CodePoint.utf8)
        (((Text.ofChars cs).take i).flatMap CodePoint.utf8).length =
      lineEndsInText (Text.ofChars cs) i := by
  have hcount := countWithin_utf8 cs i 0 0
  rw [Nat.zero_add, Nat.zero_add] at hcount
  rw [lineEndsInBytes, lineEndsInText, Text.ofChars, ← List.map_take]
  exact hcount

/-! ### All spans -/

theorem lineEndsInBytes_mono {k k' : Int} (h : k ≤ k') :
    lineEndsInBytes source k ≤ lineEndsInBytes source k' := countWithin_mono h _

/-- The lines of every span lie within the source and in order. -/
theorem exists_spanLines (source : Bytes) (start stop : Int) :
    ∃ first last, spanLines source (some start) (some stop) = (first, some last) ∧
      1 ≤ first ∧ first ≤ last ∧ last ≤ 1 + lineEndsInBytes source source.length := by
  have hlast : lineEndsInBytes source (reach source stop) ≤
      lineEndsInBytes source source.length := lineEndsInBytes_mono (by rw [reach]; omega)
  by_cases hstart : 0 ≤ start
  · have hfirst : lineEndsInBytes source (min start (reach source stop)) ≤
        lineEndsInBytes source (reach source stop) := lineEndsInBytes_mono (by omega)
    exact ⟨_, _, spanLines_of_nonneg source stop hstart, by omega, by omega, by omega⟩
  · exact ⟨_, _, spanLines_of_neg source stop (by omega), by omega, by omega, by omega⟩

theorem length_utf8_mono {s t : Text} (h : s <+: t) :
    (s.flatMap CodePoint.utf8).length ≤ (t.flatMap CodePoint.utf8).length := by
  obtain ⟨rest, rfl⟩ := h
  rw [List.flatMap_append, List.length_append]
  exact Nat.le_add_right _ _

/-- Between two places in a text the lines are those of its characters. -/
theorem spanLines_utf8 (cs : List Char) {i j : Nat} (hij : i ≤ j) :
    spanLines ((Text.ofChars cs).flatMap CodePoint.utf8)
        (some (((Text.ofChars cs).take i).flatMap CodePoint.utf8).length)
        (some (((Text.ofChars cs).take j).flatMap CodePoint.utf8).length) =
      (1 + lineEndsInText (Text.ofChars cs) i, some (1 + lineEndsInText (Text.ofChars cs) j)) := by
  have hstart := length_utf8_mono (List.take_prefix_take_left (l := Text.ofChars cs) hij)
  have hstop := length_utf8_mono (List.take_prefix j (Text.ofChars cs))
  have hreach : reach ((Text.ofChars cs).flatMap CodePoint.utf8)
      (((Text.ofChars cs).take j).flatMap CodePoint.utf8).length =
        (((Text.ofChars cs).take j).flatMap CodePoint.utf8).length := by
    rw [reach]
    omega
  rw [spanLines_of_nonneg _ _ (by omega), hreach, Int.min_eq_left (by omega),
    lineEndsInBytes_utf8, lineEndsInBytes_utf8]

/-- The lines of a span are counted by the line ends before its two ends, wherever it stops. The
lines of any span, a reversed one included, are lines of the source and in order, and for a span
between two characters of a text the line ends may be counted in the characters. -/
theorem spanLines_eq_lineEnds :
    (∀ (source : Bytes) (start stop : Int), 0 ≤ start →
      spanLines source (some start) (some stop) =
        (1 + lineEndsInBytes source (min start (reach source stop)),
          some (1 + lineEndsInBytes source (reach source stop)))) ∧
    (∀ (source : Bytes) (start stop : Int), ∃ first last,
      spanLines source (some start) (some stop) = (first, some last) ∧
        1 ≤ first ∧ first ≤ last ∧ last ≤ 1 + lineEndsInBytes source source.length) ∧
    ∀ s : Text, (∀ c ∈ s, c.isSurrogate = false) →
      ∃ bytes, s.encode = .ok bytes ∧ ∀ i j, i ≤ j →
        spanLines bytes (some ((s.take i).flatMap CodePoint.utf8).length)
            (some ((s.take j).flatMap CodePoint.utf8).length) =
          (1 + lineEndsInText s i, some (1 + lineEndsInText s j)) := by
  refine ⟨fun source start stop => spanLines_of_nonneg source stop, exists_spanLines,
    fun s hwhole => ?_⟩
  have hnone : s.unencodable? 0 = none := Text.unencodable?_eq_none.mpr hwhole
  obtain ⟨cs, rfl⟩ := Utf8.exists_ofChars hnone
  refine ⟨(Text.ofChars cs).flatMap CodePoint.utf8, by rw [Text.encode, hnone], ?_⟩
  exact fun i j hij => spanLines_utf8 cs hij

/-- A span that starts between the CR and the LF of a line end, behind a character of two bytes. It
starts on the line of the CR, in bytes as in characters. -/
theorem spanLines_eq_lineEnds_within :
    spanLines [0xC3, 0xA9, 0x0D, 0x0A, 0x0A] (some 3) (some 9) = (1, some 3) ∧
      ∃ bytes, Text.encode "é\r\n\n" = .ok bytes ∧
        spanLines bytes (some 3) (some 5) = (1, some 3) := by
  obtain ⟨hbytes, -, htext⟩ := spanLines_eq_lineEnds
  refine ⟨(hbytes _ 3 9 (by decide)).trans (by decide), ?_⟩
  obtain ⟨bytes, hencode, hlines⟩ := htext "é\r\n\n" (by decide)
  exact ⟨bytes, hencode, (hlines 2 4 (by decide)).trans (by decide)⟩

end LintReport.Output
