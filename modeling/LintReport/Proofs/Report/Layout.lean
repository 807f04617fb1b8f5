import LintReport.Proofs.Json.Written
import LintReport.Proofs.Text.Fields
import LintReport.Report.Document

/-!
The layout of a report. Its lines are indented with spaces first and with tabs in the end, which
changes nothing but the indentation: no line break stands in a string, and behind its indentation no
line starts with a space.
-/
namespace LintReport.Report

open Json (Writable pretty prettyItems prettyMembers lineBreak isSpace)
open Text (fields_ne_nil join_fields)

/-- The unit of indentation in a report. -/
def tab : Text := [.scalar '\t']

/-- The same text, with a tab in place of every four spaces behind a line break. -/
inductive Relaid : Text → Text → Prop
  | nil : Relaid [] []
  | keep {c s t} (hc : c ≠ .scalar '\n') (h : Relaid s t) : Relaid (c :: s) (c :: t)
  | lineBreak {c s t} (depth : Nat) (hc : isSpace c = false) (h : Relaid s t) :
      Relaid (lineBreak indentation depth ++ c :: s) (lineBreak tab depth ++ c :: t)

theorem ne_feed_of_not_isSpace {c : CodePoint} (hc : isSpace c = false) : c ≠ .scalar '\n' := by
  rintro rfl
  cases hc

theorem ne_blank_of_not_isSpace {c : CodePoint} (hc : isSpace c = false) : c ≠ .scalar ' ' := by
  rintro rfl
  cases hc

theorem Relaid.append {s t s' t' : Text} (h : Relaid s t) (h' : Relaid s' t') :
    Relaid (s ++ s') (t ++ t') := by
  induction h with
  | nil => exact h'
  | keep hc h ih => exact .keep hc ih
  | lineBreak depth hc h ih =>
    rw [List.append_assoc, List.append_assoc]
    exact .lineBreak depth hc ih

theorem relaid_of_not_mem {s : Text} (h : .scalar '\n' ∉ s) : Relaid s s := by
  induction s with
  | nil => exact .nil
  | cons c s ih =>
    have hne : c ≠ .scalar '\n' := fun hc => h (hc ▸ List.mem_cons_self)
    exact .keep hne (ih fun hs => h (List.mem_cons_of_mem _ hs))

/-! ### Lines -/

/-- A text without the separator before another text is part of its first field. -/
theorem fields_prefix {c : CodePoint} {l s part : Text} {parts : List Text} (hl : c ∉ l)
    (hs : Text.fields c s = part :: parts) : Text.fields c (l ++ s) = (l ++ part) :: parts := by
  induction l with
  | nil => exact hs
  | cons x l ih =>
    have hx : x ≠ c := fun e => hl (e ▸ List.mem_cons_self)
    rw [List.cons_append, Text.fields, if_neg hx, ih fun h => hl (List.mem_cons_of_mem _ h)]
    rfl

theorem fields_head {c x : CodePoint} {s part : Text} {parts : List Text} (hx : x ≠ c)
    (h : Text.fields c (x :: s) = part :: parts) : ∃ l, part = x :: l := by
  obtain ⟨l, ls, hs⟩ := List.exists_cons_of_ne_nil (fields_ne_nil c s)
  rw [Text.fields, if_neg hx, hs] at h
  exact ⟨l, (List.cons.inj h).1.symm⟩

theorem flatten_indentation (depth : Nat) :
    (List.replicate depth indentation).flatten = List.replicate (depth * 4) (.scalar ' ') :=
  List.flatten_replicate_replicate

theorem flatten_tab (depth : Nat) :
    (List.replicate depth tab).flatten = List.replicate depth (.scalar '\t') := by
  have h := List.flatten_replicate_replicate (n := depth) (m := 1) (a := CodePoint.scalar '\t')
  rwa [Nat.mul_one] at h

theorem tabbedLine_indented (depth : Nat) {c : CodePoint} {l : Text} (hc : isSpace c = false) :
    tabbedLine (List.replicate (depth * 4) (.scalar ' ') ++ c :: l) =
      List.replicate depth (.scalar '\t') ++ c :: l := by
  have htake : (List.replicate (depth * 4) (CodePoint.scalar ' ') ++ c :: l).takeWhile
      (· = .scalar ' ') = List.replicate (depth * 4) (.scalar ' ') := by
    rw [List.takeWhile_append_of_pos (by simp [List.mem_replicate]), List.takeWhile_cons_of_neg
      (by simpa using ne_blank_of_not_isSpace hc), List.append_nil]
  have hlevels : depth * 4 / 4 = depth := Nat.mul_div_cancel depth (by decide)
  rw [tabbedLine, htake, List.length_replicate, hlevels, Nat.mul_comm]
  exact congrArg _ (List.drop_left' List.length_replicate)

/-- The lines of a text and of the same text with tabs. -/
theorem Relaid.fields {s t : Text} (h : Relaid s t) :
    ∃ first lines, Text.fields (.scalar '\n') s = first :: lines ∧
      Text.fields (.scalar '\n') t = first :: lines.map tabbedLine ∧
      ∀ l ∈ lines.map tabbedLine, ∀ c ∈ l.head?, c ≠ .scalar ' ' := by
  induction h with
  | nil => exact ⟨[], [], rfl, rfl, by simp⟩
  | @keep c s t hc h ih =>
    obtain ⟨first, lines, hs, ht, hlines⟩ := ih
    refine ⟨c :: first, lines, ?_, ?_, hlines⟩
    · rw [Text.fields, if_neg hc, hs]
    · rw [Text.fields, if_neg hc, ht]
  | @lineBreak c s t depth hc h ih =>
    obtain ⟨first, lines, hs, ht, hlines⟩ := ih
    have hcons {s : Text} {parts : List Text} (hs : Text.fields (.scalar '\n') s = first :: parts) :
        Text.fields (.scalar '\n') (c :: s) = (c :: first) :: parts := by
      rw [Text.fields, if_neg (ne_feed_of_not_isSpace hc), hs]
    have hbreak {unit : Text} (hunit : .scalar '\n' ∉ (List.replicate depth unit).flatten)
        {s : Text} {parts : List Text} (hs : Text.fields (.scalar '\n') s = first :: parts) :
        Text.fields (.scalar '\n') (Json.lineBreak unit depth ++ c :: s) =
          [] :: ((List.replicate depth unit).flatten ++ c :: first) :: parts := by
      rw [Json.lineBreak, List.cons_append, Text.fields, if_pos rfl, fields_prefix hunit (hcons hs)]
    have htabbed : tabbedLine ((List.replicate depth indentation).flatten ++ c :: first) =
        (List.replicate depth tab).flatten ++ c :: first := by
      rw [flatten_indentation, flatten_tab, tabbedLine_indented depth hc]
    refine ⟨[], ((List.replicate depth indentation).flatten ++ c :: first) :: lines, ?_, ?_, ?_⟩
    · exact hbreak (by simp [flatten_indentation]) hs
    · rw [List.map_cons, htabbed]
      exact hbreak (by simp [flatten_tab]) ht
    · rw [List.map_cons, htabbed, flatten_tab]
      refine List.forall_mem_cons.mpr ⟨?_, hlines⟩
      cases depth with
      | zero => simpa using ne_blank_of_not_isSpace hc
      | succ depth => simp [List.replicate_succ]

/-- What is laid out with spaces gets its tabs. -/
theorem Relaid.tabbed_eq {c : CodePoint} {s t : Text} (hc : isSpace c = false)
    (h : Relaid (c :: s) t) : tabbed (c :: s) = t := by
  obtain ⟨first, lines, hs, ht, -⟩ := h.fields
  obtain ⟨l, rfl⟩ := fields_head (ne_feed_of_not_isSpace hc) hs
  rw [tabbed, hs, List.map_cons, show tabbedLine (c :: l) = c :: l from tabbedLine_indented 0 hc,
    ← ht, join_fields]

/-! ### Values -/

theorem value_of_mem_literalUnit {c d : CodePoint} (h : c ∈ Json.literalUnit .unicode d) :
    0x20 ≤ c.value := by
  have hescape (e : Char) (he : 0x20 ≤ e.toNat) (h : c ∈ [.scalar '\\', .scalar e]) :
      0x20 ≤ c.value := by
    simp only [List.mem_cons, List.not_mem_nil, or_false] at h
    rcases h with rfl | rfl
    · decide
    · exact he
  unfold Json.literalUnit at h
  split at h
  case h_8 =>
    split at h
    · exact (Json.isGraphic_hexEscape _ c h).1
    · next hd =>
      rw [if_pos (.inl rfl)] at h
      rw [List.mem_singleton.mp h]
      exact Nat.le_of_not_lt hd
  all_goals exact hescape _ (by decide) h

/-- No control characters stand in a literal. -/
theorem value_of_mem_literal {s : Text} {c : CodePoint} (h : c ∈ Json.literal .unicode s) :
    0x20 ≤ c.value := by
  rcases List.mem_append.mp h with h | h
  · rcases List.mem_cons.mp h with rfl | h
    · decide
    · obtain ⟨d, -, hc⟩ := List.mem_flatMap.mp h
      exact value_of_mem_literalUnit hc
  · rw [List.mem_singleton.mp h]
    decide

theorem relaid_literal (s : Text) : Relaid (Json.literal .unicode s) (Json.literal .unicode s) :=
  relaid_of_not_mem fun h => absurd (value_of_mem_literal h) (by decide)

theorem relaid_ofInt (n : Int) : Relaid (Text.ofInt n) (Text.ofInt n) := by
  have hdigits (m : Nat) : .scalar '\n' ∉ Text.ofNat m := by
    intro h
    obtain ⟨c, hc, heq⟩ := List.mem_map.mp h
    rw [CodePoint.scalar.inj heq] at hc
    exact absurd (Nat.isDigit_of_mem_toDigits (by decide) (by decide) hc) (by decide)
  cases n with
  | ofNat m => exact relaid_of_not_mem (hdigits m)
  | negSucc m => exact .keep (by decide) (relaid_of_not_mem (hdigits (m + 1)))

/-- A line break, with its indentation, before something that is laid out. -/
theorem Relaid.behindBreak {c : CodePoint} {s t : Text} (hc : isSpace c = false)
    (h : Relaid (c :: s) t) (depth : Nat) :
    Relaid (Json.lineBreak indentation depth ++ c :: s) (Json.lineBreak tab depth ++ t) := by
  generalize hs : c :: s = s' at h
  cases h with
  | nil => cases hs
  | keep _ h =>
    cases hs
    exact .lineBreak depth hc h
  | lineBreak depth' _ h =>
    have hfeed : c = .scalar '\n' := (List.cons.inj hs).1
    exact absurd hfeed (ne_feed_of_not_isSpace hc)

theorem relaid_item {v : Json} (hv : Writable v) (depth : Nat)
    (h : Relaid (pretty indentation depth v) (pretty tab depth v)) :
    Relaid (lineBreak indentation depth ++ pretty indentation depth v)
      (lineBreak tab depth ++ pretty tab depth v) := by
  obtain ⟨c, s, hs, hc⟩ : ∃ c s, pretty indentation depth v = c :: s ∧ isSpace c = false := hv.head
  rw [hs] at h ⊢
  exact h.behindBreak hc depth

theorem relaid_member (name : Text) {v : Json} (depth : Nat)
    (h : Relaid (pretty indentation depth v) (pretty tab depth v)) :
    Relaid (lineBreak indentation depth ++ Json.literal .unicode name ++
        .scalar ':' :: .scalar ' ' :: pretty indentation depth v)
      (lineBreak tab depth ++ Json.literal .unicode name ++
        .scalar ':' :: .scalar ' ' :: pretty tab depth v) :=
  ((relaid_literal name).behindBreak (by decide) depth).append
    (.keep (by decide) (.keep (by decide) h))

theorem relaid_prettyItems {items : List Json} (hwritable : ∀ v ∈ items, Writable v) (depth : Nat)
    (h : ∀ v ∈ items, Relaid (pretty indentation depth v) (pretty tab depth v)) :
    Relaid (prettyItems indentation depth items) (prettyItems tab depth items) := by
  induction items with
  | nil => exact .nil
  | cons v vs ih =>
    obtain ⟨hv, hvs⟩ := List.forall_mem_cons.mp h
    obtain ⟨hwv, hwvs⟩ := List.forall_mem_cons.mp hwritable
    have hitem := relaid_item hwv depth hv
    cases vs with
    | nil => exact hitem
    | cons w vs => exact hitem.append (.keep (by decide) (ih hwvs hvs))

theorem relaid_prettyMembers {members : List (Text × Json)} (depth : Nat)
    (h : ∀ m ∈ members, Relaid (pretty indentation depth m.2) (pretty tab depth m.2)) :
    Relaid (prettyMembers indentation depth members) (prettyMembers tab depth members) := by
  induction members with
  | nil => exact .nil
  | cons m ms ih =>
    obtain ⟨hv, hms⟩ := List.forall_mem_cons.mp h
    have hmember := relaid_member m.1 depth hv
    cases ms with
    | nil => exact hmember
    | cons w ms => exact hmember.append (.keep (by decide) (ih hms))

/-- An array or an object, with its opening and its closing mark. -/
theorem Relaid.enclosed {s t : Text} (h : Relaid s t) {opening closing : CodePoint}
    (hopening : opening ≠ .scalar '\n') (hclosing : isSpace closing = false) (depth : Nat) :
    Relaid (opening :: s ++ Json.lineBreak indentation depth ++ [closing])
      (opening :: t ++ Json.lineBreak tab depth ++ [closing]) := by
  rw [List.append_assoc, List.append_assoc]
  exact .keep hopening (h.append (.lineBreak depth hclosing .nil))

theorem relaid_pretty {v : Json} (h : Writable v) :
    ∀ depth, Relaid (pretty indentation depth v) (pretty tab depth v) := by
  have hword (s : String) (h : .scalar '\n' ∉ Text.ofString s) :
      Relaid (Text.ofString s) (Text.ofString s) := relaid_of_not_mem h
  induction h with
  | null => exact fun _ => hword "null" (by decide)
  | bool b =>
    cases b with
    | true => exact fun _ => hword "true" (by decide)
    | false => exact fun _ => hword "false" (by decide)
  | int hn => exact fun _ => relaid_ofInt _
  | string s => exact fun _ => relaid_literal s
  | @array items h ih =>
    intro depth
    cases items with
    | nil => exact hword "[]" (by decide)
    | cons v vs =>
      have hitems := relaid_prettyItems h (depth + 1) fun v hv => ih v hv (depth + 1)
      exact hitems.enclosed (by decide) (by decide) depth
  | @object members hnames h ih =>
    intro depth
    cases members with
    | nil => exact relaid_of_not_mem (s := [.scalar '{', .scalar '}']) (by decide)
    | cons m ms =>
      have hmembers := relaid_prettyMembers (depth + 1) fun m hm => ih m hm (depth + 1)
      exact hmembers.enclosed (by decide) (by decide) depth

/-- The layout with spaces becomes the layout with tabs. -/
theorem tabbed_pretty {v : Json} (h : Writable v) :
    tabbed (pretty indentation 0 v) = pretty tab 0 v := by
  obtain ⟨c, s, hs, hc⟩ : ∃ c s, pretty indentation 0 v = c :: s ∧ isSpace c = false := h.head
  have hrelaid := relaid_pretty h 0
  rw [hs] at hrelaid ⊢
  exact hrelaid.tabbed_eq hc

/-- No line of a value that is laid out with tabs starts with a space. -/
theorem head_of_mem_fields {v : Json} (h : Writable v) :
    ∀ l ∈ Text.fields (.scalar '\n') (pretty tab 0 v), ∀ c ∈ l.head?, c ≠ .scalar ' ' := by
  obtain ⟨c, s, hs, hc⟩ : ∃ c s, pretty indentation 0 v = c :: s ∧ isSpace c = false := h.head
  have hrelaid := relaid_pretty h 0
  rw [hs] at hrelaid
  obtain ⟨first, lines, hfields, ht, hlines⟩ := hrelaid.fields
  rw [ht]
  refine List.forall_mem_cons.mpr ⟨?_, hlines⟩
  obtain ⟨l, rfl⟩ := fields_head (ne_feed_of_not_isSpace hc) hfields
  simpa using ne_blank_of_not_isSpace hc

end LintReport.Report
