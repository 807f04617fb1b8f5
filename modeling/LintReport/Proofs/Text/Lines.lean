import LintReport.Text.Lines

/-!
Texts that are split into lines and joined again. Every ending of a line becomes a line feed, and
endings at the end of the text may vanish; nothing else changes. Lines without endings in them come
back as they were.
-/
namespace LintReport.Text

/-- A line as it stands in a text: nothing in it ends a line. -/
def IsLine (l : Text) : Prop := ∀ c ∈ l, c.endsLine = false

instance (l : Text) : Decidable (IsLine l) :=
  inferInstanceAs (Decidable (∀ c ∈ l, c.endsLine = false))

/-- The second text is the first one, split into lines and joined again any number of times. -/
inductive Settles : Text → Text → Prop
  | done {s} (h : ∀ c ∈ s, c.endsLine = true) : Settles s []
  | keep {c s t} (hc : c.endsLine = false) (h : Settles s t) : Settles (c :: s) (c :: t)
  | feed {c s t} (hc : c.endsLine = true) (h : Settles s t) :
      Settles (c :: s) (.scalar '\n' :: t)
  | pair {s t} (h : Settles s t) :
      Settles (.scalar '\r' :: .scalar '\n' :: s) (.scalar '\n' :: t)

theorem endsLine_feed : CodePoint.endsLine (.scalar '\n') = true := by decide

theorem endsLine_return : CodePoint.endsLine (.scalar '\r') = true := by decide

theorem value_of_isDigit {c : Char} (h : c.isDigit = true) :
    0x30 ≤ (CodePoint.scalar c).value ∧ (CodePoint.scalar c).value ≤ 0x39 := by
  simp only [Char.isDigit, Bool.and_eq_true, decide_eq_true_eq] at h
  exact ⟨UInt32.le_iff_toNat_le.mp h.1, UInt32.le_iff_toNat_le.mp h.2⟩

theorem not_endsLine {c : CodePoint} (h : 0x20 ≤ c.value) (h' : c.value < 0x80) :
    c.endsLine = false := by
  simp only [CodePoint.endsLine, CodePoint.inRanges, List.any_cons, List.any_nil, Bool.or_false,
    Bool.or_eq_false_iff, Bool.and_eq_false_iff, decide_eq_false_iff_not]
  omega

theorem isLine_append {l l' : Text} : IsLine (l ++ l') ↔ IsLine l ∧ IsLine l' :=
  List.forall_mem_append

theorem isLine_cons {c : CodePoint} {l : Text} :
    IsLine (c :: l) ↔ c.endsLine = false ∧ IsLine l := List.forall_mem_cons

theorem IsLine.append {l l' : Text} (h : IsLine l) (h' : IsLine l') : IsLine (l ++ l') :=
  isLine_append.mpr ⟨h, h'⟩

theorem IsLine.cons {c : CodePoint} {l : Text} (hc : c.endsLine = false) (h : IsLine l) :
    IsLine (c :: l) := isLine_cons.mpr ⟨hc, h⟩

theorem isLine_ofChars {cs : List Char} (h : ∀ c ∈ cs, 0x20 ≤ c.toNat ∧ c.toNat < 0x80) :
    IsLine (ofChars cs) := by
  intro x hx
  obtain ⟨c, hc, rfl⟩ := List.mem_map.mp hx
  exact not_endsLine (h c hc).1 (h c hc).2

/-! ### Lines -/

theorem isLine_ofString {s : String}
    (h : (s.toList.all fun c => 0x20 ≤ c.toNat && c.toNat < 0x80) = true) :
    IsLine (ofString s) := by
  refine isLine_ofChars fun c hc => ?_
  have hascii := List.all_eq_true.mp h c hc
  rwa [Bool.and_eq_true, decide_eq_true_eq, decide_eq_true_eq] at hascii

theorem isLine_of_mem_lines (s : Text) : ∀ l ∈ lines s, IsLine l := by
  have hnil : IsLine [] := fun c hc => absurd hc List.not_mem_nil
  fun_induction lines s with
  | case1 => exact fun l hl => absurd hl List.not_mem_nil
  | case2 s ih => exact List.forall_mem_cons.mpr ⟨hnil, ih⟩
  | case3 c s hpair hc ih => exact List.forall_mem_cons.mpr ⟨hnil, ih⟩
  | case4 c s hpair hc hlines ih =>
    intro l hl
    rw [List.mem_singleton.mp hl]
    exact hnil.cons (by simpa using hc)
  | case5 c s hpair hc line rest hlines ih =>
    rw [hlines] at ih
    obtain ⟨hline, hrest⟩ := List.forall_mem_cons.mp ih
    exact List.forall_mem_cons.mpr ⟨hline.cons (by simpa using hc), hrest⟩

theorem lines_of_endsLine {c : CodePoint} {s : Text} (hc : c.endsLine = true)
    (hpair : ∀ rest, c = .scalar '\r' → s ≠ .scalar '\n' :: rest) :
    lines (c :: s) = [] :: lines s := by
  rw [lines, if_pos hc]
  exact fun rest hc hs => hpair rest hc hs

theorem lines_of_not_endsLine {c : CodePoint} {s : Text} (hc : c.endsLine = false) :
    lines (c :: s) = match lines s with
      | [] => [[c]]
      | line :: rest => (c :: line) :: rest := by
  have hpair : ∀ rest, c = .scalar '\r' → s = .scalar '\n' :: rest → False := by
    rintro rest rfl
    exact absurd hc (by decide)
  exact (lines.eq_3 c s hpair).trans (if_neg (by simp [hc]))

theorem lines_ne_nil {s : Text} (h : s ≠ []) : lines s ≠ [] := by
  fun_cases lines s with
  | case1 => exact absurd rfl h
  | _ => exact List.cons_ne_nil _ _

theorem lines_of_isLine {l : Text} (hl : IsLine l) (hne : l ≠ []) : lines l = [l] := by
  induction l with
  | nil => exact absurd rfl hne
  | cons c l ih =>
    obtain ⟨hc, hrest⟩ := List.forall_mem_cons.mp hl
    rw [lines_of_not_endsLine hc]
    by_cases h : l = []
    · subst h
      rfl
    · rw [ih hrest h]

theorem lines_append_line {l : Text} (hl : IsLine l) (s : Text) :
    lines (l ++ .scalar '\n' :: s) = l :: lines s := by
  induction l with
  | nil => exact lines_of_endsLine endsLine_feed fun rest h => absurd h (by decide)
  | cons c l ih =>
    have hc : c.endsLine = false := hl c List.mem_cons_self
    have hrest := ih fun x hx => hl x (List.mem_cons_of_mem _ hx)
    rw [List.cons_append, lines_of_not_endsLine hc, hrest]

theorem lines_append_lines {ls : List Text} (hls : ∀ l ∈ ls, IsLine l) (s : Text) :
    lines (ls.flatMap (· ++ [.scalar '\n']) ++ s) = ls ++ lines s := by
  induction ls with
  | nil => rfl
  | cons l ls ih =>
    have hrest := ih fun x hx => hls x (List.mem_cons_of_mem _ hx)
    rw [List.flatMap_cons, List.append_assoc, List.append_assoc, List.singleton_append,
      lines_append_line (hls l List.mem_cons_self), hrest, List.cons_append]

/-- A text is the only line before a line feed if and only if nothing in it ends a line. -/
theorem lines_append_feed_eq_singleton {l : Text} :
    lines (l ++ [.scalar '\n']) = [l] ↔ IsLine l := by
  constructor
  · intro h
    exact isLine_of_mem_lines (l ++ [.scalar '\n']) l (h ▸ List.mem_singleton_self l)
  · exact fun hl => lines_append_line hl []

/-- What stands before a line feed has lines of its own. -/
theorem lines_append_feed (s t : Text) :
    lines (s ++ .scalar '\n' :: t) = lines (s ++ [.scalar '\n']) ++ lines t := by
  have hfeed (t : Text) : lines (.scalar '\n' :: t) = [] :: lines t :=
    lines_of_endsLine endsLine_feed fun rest h => absurd h (by decide)
  have hkeep {c : CodePoint} {s : Text} (hc : c.endsLine = false)
      (ih : lines (s ++ .scalar '\n' :: t) = lines (s ++ [.scalar '\n']) ++ lines t) :
      lines (c :: (s ++ .scalar '\n' :: t)) = lines (c :: (s ++ [.scalar '\n'])) ++ lines t := by
    obtain ⟨line, rest, hlines⟩ := List.exists_cons_of_ne_nil
      (lines_ne_nil (s := s ++ [.scalar '\n']) (by simp))
    rw [lines_of_not_endsLine hc, lines_of_not_endsLine hc, ih, hlines]
    rfl
  fun_induction lines s with
  | case1 => exact (hfeed t).trans (by rw [List.nil_append, hfeed]; rfl)
  | case2 s ih =>
    rw [List.cons_append, List.cons_append, List.cons_append, List.cons_append, lines, lines, ih,
      List.cons_append]
  | case3 c s hpair hc ih =>
    cases s with
    | nil =>
      by_cases hreturn : c = .scalar '\r'
      · subst hreturn
        rfl
      · have hline (s : Text) : lines (c :: s) = [] :: lines s :=
          lines_of_endsLine hc fun rest h => absurd h hreturn
        rw [List.singleton_append, List.singleton_append, hline, hline, hfeed, hfeed]
        rfl
    | cons x s =>
      have hline (t : Text) : lines (c :: x :: (s ++ t)) = [] :: lines (x :: (s ++ t)) := by
        apply lines_of_endsLine hc
        intro rest hreturn hnext
        exact hpair s hreturn (by rw [(List.cons.inj hnext).1])
      rw [List.cons_append, List.cons_append, List.cons_append, List.cons_append, hline, hline]
      exact congrArg ([] :: ·) ih
  | case4 c s hpair hc hlines ih => exact hkeep (by simpa using hc) ih
  | case5 c s hpair hc line rest hlines ih => exact hkeep (by simpa using hc) ih

/-- All line endings are alike for the lines. -/
theorem lines_unifyNewlines (s : Text) : lines (unifyNewlines s) = lines s := by
  fun_induction unifyNewlines s with
  | case1 => rfl
  | case2 s ih =>
    rw [lines_of_endsLine endsLine_feed fun rest h => absurd h (by decide), ih, lines]
  | case3 s hpair ih =>
    rw [lines_of_endsLine endsLine_feed fun rest h => absurd h (by decide), ih,
      lines_of_endsLine endsLine_return fun rest _ hs => hpair rest hs]
  | case4 c s hpair hreturn ih =>
    cases hc : c.endsLine with
    | true =>
      rw [lines_of_endsLine hc fun rest h => absurd h hreturn, ih,
        lines_of_endsLine hc fun rest h => absurd h hreturn]
    | false => rw [lines_of_not_endsLine hc, ih, lines_of_not_endsLine hc]

theorem joinLines_cons {l : Text} {ls : List Text} (h : ls ≠ []) :
    joinLines (l :: ls) = l ++ .scalar '\n' :: joinLines ls := by
  cases ls with
  | nil => exact absurd rfl h
  | cons next ls => simp [joinLines, join]

theorem joinLines_append {ls ls' : List Text} (h : ls' ≠ []) :
    joinLines (ls ++ ls') = ls.flatMap (· ++ [.scalar '\n']) ++ joinLines ls' := by
  induction ls with
  | nil => rfl
  | cons l ls ih =>
    have hne : ls ++ ls' ≠ [] := List.append_ne_nil_of_right_ne_nil _ h
    rw [List.cons_append, joinLines_cons hne, ih, List.flatMap_cons]
    simp

theorem joinLines_feed {ls : List Text} (h : ls ≠ []) (s : Text) :
    joinLines ls ++ .scalar '\n' :: s = ls.flatMap (· ++ [.scalar '\n']) ++ s := by
  induction ls with
  | nil => exact absurd rfl h
  | cons l ls ih =>
    by_cases hls : ls = []
    · subst hls
      simp [joinLines, join]
    · rw [joinLines_cons hls, List.append_assoc, List.cons_append, ih hls]
      simp

/-- Texts that are joined by line feeds before a last line are split each by itself. -/
theorem lines_joinLines_concat (rows : List Text) {l : Text} (hl : IsLine l) (hne : l ≠ []) :
    lines (joinLines (rows ++ [l])) =
      rows.flatMap (fun row => lines (row ++ [.scalar '\n'])) ++ [l] := by
  induction rows with
  | nil => exact lines_of_isLine hl hne
  | cons row rows ih =>
    have hrest : rows ++ [l] ≠ [] := List.append_ne_nil_of_right_ne_nil _ (List.cons_ne_nil l [])
    rw [List.cons_append, joinLines_cons hrest, lines_append_feed, ih, List.flatMap_cons,
      List.append_assoc]

/-! ### Texts rejoined line by line -/

/-- Every ending of a line becomes a line feed, also that of the last line. -/
def feeds : Text → Text
  | [] => []
  | .scalar '\r' :: .scalar '\n' :: s => .scalar '\n' :: feeds s
  | c :: s => (if c.endsLine then .scalar '\n' else c) :: feeds s

theorem joinLines_lines_cons {c : CodePoint} (hc : c.endsLine = false) (s : Text) :
    joinLines (lines (c :: s)) = c :: joinLines (lines s) := by
  rw [lines_of_not_endsLine hc]
  cases lines s with
  | nil => rfl
  | cons line rest => cases rest <;> rfl

theorem IsLine.joinLines_lines {l : Text} (hl : IsLine l) (s : Text) :
    joinLines (lines (l ++ s)) = l ++ joinLines (lines s) := by
  induction l with
  | nil => rfl
  | cons c l ih =>
    obtain ⟨hc, hrest⟩ := List.forall_mem_cons.mp hl
    rw [List.cons_append, joinLines_lines_cons hc, ih hrest, List.cons_append]

/-- What stands before a unit that ends no line is rejoined on its own. -/
theorem joinLines_lines_append {c : CodePoint} (hc : c.endsLine = false) (s t : Text) :
    joinLines (lines (s ++ c :: t)) = feeds s ++ joinLines (lines (c :: t)) := by
  fun_induction feeds s with
  | case1 => rfl
  | case2 s ih =>
    have hne : lines (s ++ c :: t) ≠ [] := lines_ne_nil (by simp)
    rw [List.cons_append, List.cons_append, lines, joinLines_cons hne, ih]
    rfl
  | case3 x s hpair ih =>
    cases hx : x.endsLine with
    | true =>
      have hne : lines (s ++ c :: t) ≠ [] := lines_ne_nil (by simp)
      have hfeed : ∀ rest, x = .scalar '\r' → s ++ c :: t ≠ .scalar '\n' :: rest := by
        rintro rest rfl heq
        cases s with
        | nil =>
          rw [(List.cons.inj heq).1] at hc
          cases hc
        | cons y s => exact hpair s rfl (by rw [(List.cons.inj heq).1])
      rw [List.cons_append, lines_of_endsLine hx hfeed, joinLines_cons hne, ih, if_pos rfl]
      rfl
    | false =>
      rw [List.cons_append, joinLines_lines_cons hx, ih, if_neg (by simp)]
      rfl

/-- A mark that stands in a line is still there, between what was rejoined on either side. -/
theorem joinLines_lines_mark {mark : Text} (hmark : IsLine mark) (hne : mark ≠ []) (s t : Text) :
    joinLines (lines (s ++ mark ++ t)) = feeds s ++ mark ++ joinLines (lines t) := by
  obtain ⟨c, tail, rfl⟩ := List.exists_cons_of_ne_nil hne
  have hc : c.endsLine = false := hmark c List.mem_cons_self
  rw [List.append_assoc, List.cons_append, joinLines_lines_append hc, ← List.cons_append,
    hmark.joinLines_lines, List.append_assoc]

/-! ### Settled texts -/

theorem settles_feeds (s : Text) : Settles s (feeds s) := by
  fun_induction feeds s with
  | case1 => exact .done (by simp)
  | case2 s ih => exact .pair ih
  | case3 c s hpair ih =>
    cases hc : c.endsLine with
    | true => exact .feed hc ih
    | false => exact .keep hc ih

theorem settles_joinLines_lines (s : Text) : Settles s (joinLines (lines s)) := by
  fun_induction lines s with
  | case1 => exact .done (by simp)
  | case2 s ih =>
    by_cases hs : s = []
    · subst hs
      exact .done (by decide)
    · rw [joinLines_cons (lines_ne_nil hs)]
      exact .pair ih
  | case3 c s hpair hc ih =>
    by_cases hs : s = []
    · subst hs
      exact .done (by simpa using hc)
    · rw [joinLines_cons (lines_ne_nil hs)]
      exact .feed hc ih
  | case4 c s hpair hc hlines ih =>
    rw [hlines] at ih
    exact .keep (by simpa using hc) ih
  | case5 c s hpair hc line rest hlines ih =>
    rw [hlines] at ih
    have hjoin : joinLines ((c :: line) :: rest) = c :: joinLines (line :: rest) := by
      cases rest with
      | nil => rfl
      | cons next rest => rfl
    rw [hjoin]
    exact .keep (by simpa using hc) ih

theorem Settles.all_endsLine {s t : Text} (h : Settles s t) (ht : ∀ c ∈ t, c.endsLine = true) :
    ∀ c ∈ s, c.endsLine = true := by
  induction h with
  | done h => exact h
  | keep hc h ih =>
    have := ht _ List.mem_cons_self
    rw [hc] at this
    cases this
  | feed hc h ih =>
    intro x hx
    rcases List.mem_cons.mp hx with rfl | hx
    · exact hc
    · exact ih (fun y hy => ht y (List.mem_cons_of_mem _ hy)) x hx
  | pair h ih =>
    intro x hx
    simp only [List.mem_cons] at hx
    rcases hx with rfl | rfl | hx
    · exact endsLine_return
    · exact endsLine_feed
    · exact ih (fun y hy => ht y (List.mem_cons_of_mem _ hy)) x hx

theorem Settles.trans {s t u : Text} (h : Settles s t) (h' : Settles t u) : Settles s u := by
  induction h generalizing u with
  | done h =>
    cases h'
    exact .done h
  | @keep c s t hc h ih =>
    cases h' with
    | done hall => rw [hall c List.mem_cons_self] at hc; cases hc
    | keep _ h' => exact .keep hc (ih h')
    | feed hc' _ => rw [hc] at hc'; cases hc'
    | pair h' => cases hc
  | @feed c s t hc h ih =>
    cases h' with
    | done hall =>
      refine .done (Settles.all_endsLine (.feed hc h) hall)
    | keep hc' _ => cases hc'
    | feed _ h' => exact .feed hc (ih h')
  | @pair s t h ih =>
    cases h' with
    | done hall => exact .done (Settles.all_endsLine (.pair h) hall)
    | keep hc' _ => cases hc'
    | feed _ h' => exact .pair (ih h')

/-- What does not end a line stays where it is. -/
theorem settles_cons_iff {c : CodePoint} {s q : Text} (hc : c.endsLine = false) :
    Settles (c :: s) q ↔ ∃ t, q = c :: t ∧ Settles s t := by
  constructor
  · intro h
    cases h with
    | done hall => rw [hall c List.mem_cons_self] at hc; cases hc
    | keep _ h => exact ⟨_, rfl, h⟩
    | feed hc' _ => rw [hc] at hc'; cases hc'
    | pair h => cases hc
  · rintro ⟨t, rfl, h⟩
    exact .keep hc h

theorem Settles.prefix_left {mark s t : Text} (hmark : IsLine mark) (h : Settles s t)
    (ht : mark <+: t) : mark <+: s := by
  induction mark generalizing s t with
  | nil => exact List.nil_prefix
  | cons c mark ih =>
    obtain ⟨hc, hrest⟩ := List.forall_mem_cons.mp hmark
    obtain ⟨t, rfl⟩ := ht
    cases h with
    | keep _ h => exact List.cons_prefix_cons.mpr ⟨rfl, ih hrest h (List.prefix_append mark t)⟩
    | feed _ _ => cases hc
    | pair _ => cases hc

/-- No mark appears in a settled text that was not there before. -/
theorem Settles.infix_left {mark s t : Text} (hmark : IsLine mark) (h : Settles s t)
    (ht : mark <:+: t) : mark <:+: s := by
  induction h with
  | done => rw [List.infix_nil.mp ht]; exact List.nil_infix
  | @keep c s t hc h ih =>
    rcases List.infix_cons_iff.mp ht with ht | ht
    · exact ((Settles.keep hc h).prefix_left hmark ht).isInfix
    · exact List.infix_cons (ih ht)
  | @feed c s t hc h ih =>
    rcases List.infix_cons_iff.mp ht with ht | ht
    · exact ((Settles.feed hc h).prefix_left hmark ht).isInfix
    · exact List.infix_cons (ih ht)
  | @pair s t h ih =>
    rcases List.infix_cons_iff.mp ht with ht | ht
    · exact ((Settles.pair h).prefix_left hmark ht).isInfix
    · exact List.infix_cons (List.infix_cons (ih ht))

end LintReport.Text
