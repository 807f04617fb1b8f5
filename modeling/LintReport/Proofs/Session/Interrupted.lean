import LintReport.Session.Command
import LintReport.Proofs.Number.Whole

/-!
Commands without a report of their own. Where there is no program behind a command, or the time of
the program is up, a line says so, and it comes after everything that was printed before. That line
is a line of its own, and it ends in a unit that no document ends in.
-/
namespace LintReport.Command

open Text (IsLine isLine_ofChars isLine_ofInt isLine_ofString value_of_isDigit)

/-- What comes of a command without a program behind it, or of one whose time is up. -/
inductive Interrupted (w : Workspace) (command : List Text) (limit : Option Seconds) :
    CommandResult → Prop
  | notFound {word : Text} {arguments : List Text} (hcommand : command = word :: arguments)
      (hprocess : w.process? command = none) : Interrupted w command limit (notFound word)
  | timedOut {seconds : Seconds} {p : Process} (hprocess : w.process? command = some p)
      (hlimit : limit = some seconds) (hhangs : p.hangs = true) :
      Interrupted w command limit (timedOut seconds p)

section Result

variable {w : Workspace} {command : List Text} {limit : Option Seconds} {r : CommandResult}

theorem Interrupted.resultIn_eq (h : Interrupted w command limit r) :
    resultIn w command limit = .ok r := by
  cases h with
  | notFound hcommand hprocess =>
    subst hcommand
    rw [resultIn, hprocess]
  | timedOut hprocess hlimit hhangs =>
    cases command with
    | nil => cases hprocess
    | cons word arguments =>
      rw [resultIn, hprocess, hlimit]
      exact congrArg Except.ok (if_pos hhangs)

theorem Interrupted.exitCode_ne_zero (h : Interrupted w command limit r) : r.exitCode ≠ 0 := by
  cases h with
  | notFound => exact show exitNotFound ≠ 0 by decide
  | timedOut => exact show exitTimeout ≠ 0 by decide

end Result

/-! ### Numbers in messages -/

/-- Characters that a number is written in. -/
def IsNumeric (cs : List Char) : Prop := ∀ c ∈ cs, 0x20 ≤ c.toNat ∧ c.toNat < 0x80

theorem isNumeric_toDigits (n : Nat) : IsNumeric (Nat.toDigits 10 n) := by
  intro c hc
  have hdigit := value_of_isDigit (Nat.isDigit_of_mem_toDigits (by decide) (by decide) hc)
  change 0x30 ≤ c.toNat ∧ c.toNat ≤ 0x39 at hdigit
  omega

theorem IsNumeric.append {cs ds : List Char} (h : IsNumeric cs) (h' : IsNumeric ds) :
    IsNumeric (cs ++ ds) := by
  intro c hc
  rcases List.mem_append.mp hc with hc | hc
  · exact h c hc
  · exact h' c hc

theorem IsNumeric.cons {c : Char} {cs : List Char} (hc : 0x20 ≤ c.toNat ∧ c.toNat < 0x80)
    (h : IsNumeric cs) : IsNumeric (c :: cs) := List.forall_mem_cons.mpr ⟨hc, h⟩

theorem IsNumeric.sublist {cs ds : List Char} (h : IsNumeric cs) (hsub : ds.Sublist cs) :
    IsNumeric ds := fun c hc => h c (hsub.subset hc)

theorem isNumeric_zeros (n : Nat) : IsNumeric (List.replicate n '0') := by
  intro c hc
  rw [List.eq_of_mem_replicate hc]
  decide

theorem isNumeric_powerMark (exponent : Int) : IsNumeric (Binary64.powerMark exponent) := by
  have hsign : IsNumeric ['e', if exponent < 0 then '-' else '+'] := by
    refine IsNumeric.cons (by decide) (IsNumeric.cons ?_ fun c hc => absurd hc List.not_mem_nil)
    split <;> decide
  exact (hsign.append (isNumeric_zeros _)).append (isNumeric_toDigits _)

theorem isLine_layout {ds : List Char} (hds : IsNumeric ds) (point : Int) :
    IsLine (Binary64.layout ds point) := by
  unfold Binary64.layout
  dsimp only
  split
  · split
    · have hzeros := (isNumeric_zeros (-point).toNat).append hds
      exact isLine_ofChars ((hzeros.cons (by decide)).cons (by decide))
    · have hwhole := (hds.sublist (List.take_sublist point.toNat _)).append
        (isNumeric_zeros (point.toNat - (ds.take point.toNat).length))
      have hfraction : IsNumeric (if (ds.drop point.toNat).isEmpty then ['0']
          else ds.drop point.toNat) := by
        split
        · exact isNumeric_zeros 1
        · exact hds.sublist (List.drop_sublist _ _)
      exact isLine_ofChars (hwhole.append (hfraction.cons (by decide)))
  · have hrest : IsNumeric (if ds.length ≤ 1 then [] else '.' :: ds.drop 1) := by
      split
      · exact isNumeric_zeros 0
      · exact (hds.sublist (List.drop_sublist _ _)).cons (by decide)
    exact isLine_ofChars (((hds.sublist (List.take_sublist 1 _)).append hrest).append
      (isNumeric_powerMark _))

theorem isLine_shown (seconds : Seconds) : IsLine seconds.shown := by
  cases seconds with
  | whole n => exact isLine_ofInt n
  | real x =>
    change IsLine x.shown
    cases x with
    | nan => exact isLine_ofString (by decide)
    | infinite negative => cases negative <;> exact isLine_ofString (by decide)
    | finite negative mantissa exponent =>
      have hdigits (n : Nat) : IsNumeric (Binary64.dropZeros (Nat.toDigits 10 n)).1 := by
        refine (isNumeric_toDigits n).sublist ?_
        rw [← List.reverse_sublist, Binary64.dropZeros, List.reverse_reverse]
        exact List.dropWhile_sublist _
      have hmagnitude : IsLine (if mantissa = 0 then Text.ofString "0.0" else
          let digits := Binary64.shortest mantissa exponent
          let kept := Binary64.dropZeros (Nat.toDigits 10 digits.1)
          Binary64.layout kept.1 (kept.1.length + kept.2 + digits.2)) := by
        split
        · exact isLine_ofString (by decide)
        · exact isLine_layout (hdigits _) _
      rw [Binary64.shown]
      dsimp only
      split
      · exact hmagnitude.cons (by decide)
      · exact hmagnitude

/-! ### Quoted words -/

theorem isLine_numbered (c : CodePoint) : IsLine (Text.numbered c) := by
  have hdigit : ∀ n < 16, 0x20 ≤ n.digitChar.toNat ∧ n.digitChar.toNat < 0x80 := by decide
  have hdigits (width n : Nat) : IsNumeric (hexDigits width n) := by
    induction width generalizing n with
    | zero => exact fun c hc => absurd hc List.not_mem_nil
    | succ width ih =>
      have hlast := hdigit (n % 16) (Nat.mod_lt n (by decide))
      exact (ih (n / 16)).append (IsNumeric.cons hlast fun c hc => absurd hc List.not_mem_nil)
  unfold Text.numbered
  split
  · exact IsLine.append (isLine_ofString (by decide)) (isLine_ofChars (hdigits _ _))
  · split
    · exact IsLine.append (isLine_ofString (by decide)) (isLine_ofChars (hdigits _ _))
    · exact IsLine.append (isLine_ofString (by decide)) (isLine_ofChars (hdigits _ _))

theorem not_endsLine_of_isPrintable {c : CodePoint} (h : c.isPrintable = true) :
    c.endsLine = false := by
  rw [← Bool.not_eq_true]
  intro hc
  simp only [CodePoint.endsLine, CodePoint.inRanges, List.any_cons, List.any_nil, Bool.or_false,
    Bool.or_eq_true, Bool.and_eq_true, decide_eq_true_eq] at hc
  simp only [CodePoint.isPrintable, Bool.and_eq_true, decide_eq_true_eq] at h
  obtain ⟨hlow, h⟩ := h
  have hvalue : c.value = 0x85 ∨ c.value = 0x2028 ∨ c.value = 0x2029 := by omega
  rcases hvalue with hvalue | hvalue | hvalue <;>
    · simp only [CodePoint.inRanges, hvalue] at h
      exact absurd h (by decide +kernel)

theorem isLine_quotedUnit {quote : CodePoint} (hquote : quote.endsLine = false) (c : CodePoint) :
    IsLine (Text.quotedUnit quote c) := by
  unfold Text.quotedUnit
  split
  · next h =>
    have hc : c.endsLine = false := by
      rcases h with rfl | rfl
      · exact hquote
      · decide
    exact IsLine.cons (by decide) (IsLine.cons hc fun c hc => absurd hc List.not_mem_nil)
  · split
    · exact isLine_ofString (by decide)
    · split
      · exact isLine_ofString (by decide)
      · split
        · exact isLine_ofString (by decide)
        · split
          · next hprintable =>
            exact IsLine.cons (not_endsLine_of_isPrintable hprintable)
              fun c hc => absurd hc List.not_mem_nil
          · exact isLine_numbered c

/-- A quoted text is one line that ends in a quote. -/
theorem quoted_spec (s : Text) : IsLine s.quoted ∧
    (s.quoted.getLast? = some (.scalar '\'') ∨ s.quoted.getLast? = some (.scalar '"')) := by
  have hquote (quote : CodePoint) (h : quote.endsLine = false) :
      IsLine (quote :: s.flatMap (Text.quotedUnit quote) ++ [quote]) ∧
        (quote :: s.flatMap (Text.quotedUnit quote) ++ [quote]).getLast? = some quote := by
    constructor
    · have hunits : IsLine (s.flatMap (Text.quotedUnit quote)) := by
        intro c hc
        obtain ⟨x, -, hx⟩ := List.mem_flatMap.mp hc
        exact isLine_quotedUnit h x c hx
      exact (hunits.cons h).append (IsLine.cons h fun c hc => absurd hc List.not_mem_nil)
    · exact List.getLast?_concat
  unfold Text.quoted
  dsimp only
  split
  · exact ⟨(hquote _ (by decide)).1, Or.inr (hquote _ (by decide)).2⟩
  · exact ⟨(hquote _ (by decide)).1, Or.inl (hquote _ (by decide)).2⟩

/-! ### What is said -/

theorem notFound_spec (word : Text) : IsLine (notFound word).output ∧
    ((notFound word).output.getLast? = some (.scalar '\'') ∨
      (notFound word).output.getLast? = some (.scalar '"')) := by
  obtain ⟨hline, hlast⟩ := quoted_spec word
  constructor
  · exact IsLine.append (isLine_ofString (by decide)) hline
  · refine hlast.imp (fun h => ?_) fun h => ?_
    · exact (List.getLast?_append).trans (by rw [h]; rfl)
    · exact (List.getLast?_append).trans (by rw [h]; rfl)

theorem isLine_timeoutMessage (seconds : Seconds) : IsLine (timeoutMessage seconds) :=
  IsLine.append (IsLine.append (isLine_ofString (by decide)) (isLine_shown seconds))
    (isLine_ofString (by decide))

theorem getLast?_timeoutMessage (seconds : Seconds) :
    (timeoutMessage seconds).getLast? = some (.scalar 's') := by
  rw [timeoutMessage, List.getLast?_append]
  rfl

theorem timeoutMessage_ne_nil (seconds : Seconds) : timeoutMessage seconds ≠ [] := by
  intro h
  have hlast := getLast?_timeoutMessage seconds
  rw [h] at hlast
  cases hlast

/-- The message comes on a line of its own after the lines that were printed, if they are more than
one empty line. -/
theorem output_timedOut (seconds : Seconds) (p : Process) :
    ∃ ls, (timedOut seconds p).output = ls.flatMap (· ++ [.scalar '\n']) ++ timeoutMessage seconds ∧
      (ls = Text.lines (Utf8.decodeLossy p.interrupted) ∨
        ls = [] ∧ ∀ l ∈ Text.lines (Utf8.decodeLossy p.interrupted), l = []) := by
  have hmessage := timeoutMessage_ne_nil seconds
  have houtput : (timedOut seconds p).output = Text.joinLines
      ([Text.joinLines (Text.lines (Utf8.decodeLossy p.interrupted)),
        timeoutMessage seconds].filter (· ≠ [])) := rfl
  rw [houtput]
  cases hprinted : Text.joinLines (Text.lines (Utf8.decodeLossy p.interrupted)) with
  | nil =>
    refine ⟨[], ?_, Or.inr ⟨rfl, ?_⟩⟩
    · simp [hmessage, Text.joinLines, Text.join]
    · cases hlines : Text.lines (Utf8.decodeLossy p.interrupted) with
      | nil => exact fun l hl => absurd hl List.not_mem_nil
      | cons l ls =>
        rw [hlines] at hprinted
        cases ls with
        | nil => exact fun x hx => (List.mem_singleton.mp hx).trans hprinted
        | cons next ls =>
          rw [Text.joinLines_cons (List.cons_ne_nil _ _)] at hprinted
          simp at hprinted
  | cons c printed =>
    have hlines : Text.lines (Utf8.decodeLossy p.interrupted) ≠ [] := by
      intro h
      rw [h] at hprinted
      cases hprinted
    refine ⟨_, ?_, Or.inl rfl⟩
    rw [← Text.joinLines_feed hlines, hprinted]
    simp [hmessage, Text.joinLines, Text.join]

end LintReport.Command
