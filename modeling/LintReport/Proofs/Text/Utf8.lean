import LintReport.Text.Utf8

/-!
Decoding what was encoded. The bytes of a scalar value take the decoder from the first byte of a
sequence to the first byte of the next one, with that value in between.
-/
namespace LintReport

/-- A text is encoded if no half of a surrogate pair stands alone in it. -/
theorem Text.unencodable?_eq_none {s : Text} {position : Nat} :
    s.unencodable? position = none ↔ ∀ c ∈ s, c.isSurrogate = false := by
  induction s generalizing position with
  | nil => simp [unencodable?]
  | cons c s ih =>
    cases c with
    | scalar c => simp [unencodable?, ih, CodePoint.isSurrogate]
    | surrogate half => simp [unencodable?, CodePoint.isSurrogate]

namespace Utf8

variable {bits n : Nat} {due next : UInt8 × UInt8} {later : List (UInt8 × UInt8)} {bs : Bytes}

theorem charsFrom_cons (state : State) (b : UInt8) :
    charsFrom state (b :: bs) = (step state b).1 ++ charsFrom (step state b).2 bs := by
  cases state <;> rfl

/-- The first byte of a sequence, by its number. -/
theorem first_ofNat (hn : n < 256) :
    first (UInt8.ofNat n) =
      if n < 0x80 then ([some (Char.ofNat n)], .start)
      else if n < 0xC2 then ([none], .start)
      else if n < 0xE0 then ([], .within (n - 0xC0) tail [])
      else if n = 0xE0 then ([], .within 0 (0xA0, 0xBF) [tail])
      else if n = 0xED then ([], .within 0xD (0x80, 0x9F) [tail])
      else if n < 0xF0 then ([], .within (n - 0xE0) tail [tail])
      else if n = 0xF0 then ([], .within 0 (0x90, 0xBF) [tail, tail])
      else if n < 0xF4 then ([], .within (n - 0xF0) tail [tail, tail])
      else if n = 0xF4 then ([], .within 4 (0x80, 0x8F) [tail, tail])
      else ([none], .start) := by
  have hnat : (UInt8.ofNat n).toNat = n := UInt8.toNat_ofNat_of_lt hn
  simp only [first, UInt8.lt_iff_toNat_lt, ← UInt8.toNat_inj, hnat, UInt8.reduceToNat]

theorem charsFrom_first {state : State} (h : first (UInt8.ofNat n) = ([], state)) :
    charsFrom .start (UInt8.ofNat n :: bs) = charsFrom state bs := by
  rw [charsFrom_cons, step, h]
  rfl

theorem step_within (hn : n < 256) (hdue : due.1.toNat ≤ n ∧ n ≤ due.2.toNat) :
    step (.within bits due later) (UInt8.ofNat n) =
      match later with
      | [] => ([some (Char.ofNat (bits * 64 + (n - 0x80)))], .start)
      | next :: later => ([], .within (bits * 64 + (n - 0x80)) next later) := by
  have hnat : (UInt8.ofNat n).toNat = n := UInt8.toNat_ofNat_of_lt hn
  have hin : due.1 ≤ UInt8.ofNat n ∧ UInt8.ofNat n ≤ due.2 := by
    rwa [UInt8.le_iff_toNat_le, UInt8.le_iff_toNat_le, hnat]
  cases later with
  | nil => rw [step, if_pos hin, hnat]
  | cons next later => rw [step, if_pos hin, hnat]

theorem charsFrom_last (hn : n < 256) (hdue : due.1.toNat ≤ n ∧ n ≤ due.2.toNat) :
    charsFrom (.within bits due []) (UInt8.ofNat n :: bs) =
      some (Char.ofNat (bits * 64 + (n - 0x80))) :: charsFrom .start bs := by
  rw [charsFrom_cons, step_within hn hdue]
  rfl

theorem charsFrom_next (hn : n < 256) (hdue : due.1.toNat ≤ n ∧ n ≤ due.2.toNat) :
    charsFrom (.within bits due (next :: later)) (UInt8.ofNat n :: bs) =
      charsFrom (.within (bits * 64 + (n - 0x80)) next later) bs := by
  rw [charsFrom_cons, step_within hn hdue]
  rfl

/-! ### Sequences of two, three and four bytes -/

variable {v : Nat}

theorem charsFrom_two (h : 0x80 ≤ v ∧ v ≤ 0x7FF) :
    charsFrom .start (UInt8.ofNat (v / 64 % 0x20 + 0xC0) :: UInt8.ofNat (v % 0x40 + 0x80) :: bs) =
      some (Char.ofNat v) :: charsFrom .start bs := by
  have hfirst : first (UInt8.ofNat (v / 64 % 0x20 + 0xC0)) =
      ([], .within (v / 64 % 0x20 + 0xC0 - 0xC0) tail []) := by
    rw [first_ofNat (by omega), if_neg (by omega), if_neg (by omega), if_pos (by omega)]
  have hbits : (v / 64 % 0x20 + 0xC0 - 0xC0) * 64 + (v % 0x40 + 0x80 - 0x80) = v := by omega
  rw [charsFrom_first hfirst,
    charsFrom_last (by omega) ⟨show 0x80 ≤ _ by omega, show _ ≤ 0xBF by omega⟩, hbits]

theorem charsFrom_three (h : 0x800 ≤ v ∧ v ≤ 0xFFFF) (hscalar : v < 0xD800 ∨ 0xDFFF < v) :
    charsFrom .start (UInt8.ofNat (v / 4096 % 0x10 + 0xE0) ::
      UInt8.ofNat (v / 64 % 0x40 + 0x80) :: UInt8.ofNat (v % 0x40 + 0x80) :: bs) =
      some (Char.ofNat v) :: charsFrom .start bs := by
  -- the first byte alone allows too much: overlong sequences and surrogate halves
  have hfirst : ∃ due : UInt8 × UInt8, first (UInt8.ofNat (v / 4096 % 0x10 + 0xE0)) =
      ([], .within (v / 4096) due [tail]) ∧
      due.1.toNat ≤ v / 64 % 0x40 + 0x80 ∧ v / 64 % 0x40 + 0x80 ≤ due.2.toNat := by
    rw [first_ofNat (by omega), if_neg (by omega), if_neg (by omega), if_neg (by omega)]
    by_cases hlow : v / 4096 = 0
    · rw [if_pos (by omega), hlow]
      exact ⟨_, rfl, show 0xA0 ≤ _ by omega, show _ ≤ 0xBF by omega⟩
    · rw [if_neg (by omega)]
      by_cases hhigh : v / 4096 = 0xD
      · rw [if_pos (by omega), hhigh]
        exact ⟨_, rfl, show 0x80 ≤ _ by omega, show _ ≤ 0x9F by omega⟩
      · have hbits : v / 4096 % 0x10 + 0xE0 - 0xE0 = v / 4096 := by omega
        rw [if_neg (by omega), if_pos (by omega), hbits]
        exact ⟨_, rfl, show 0x80 ≤ _ by omega, show _ ≤ 0xBF by omega⟩
  obtain ⟨due, hfirst, hdue⟩ := hfirst
  have hbits : (v / 4096 * 64 + (v / 64 % 0x40 + 0x80 - 0x80)) * 64 +
      (v % 0x40 + 0x80 - 0x80) = v := by omega
  rw [charsFrom_first hfirst, charsFrom_next (by omega) hdue,
    charsFrom_last (by omega) ⟨show 0x80 ≤ _ by omega, show _ ≤ 0xBF by omega⟩, hbits]

theorem charsFrom_four (h : 0x10000 ≤ v ∧ v < 0x110000) :
    charsFrom .start (UInt8.ofNat (v / 262144 % 0x08 + 0xF0) ::
      UInt8.ofNat (v / 4096 % 0x40 + 0x80) :: UInt8.ofNat (v / 64 % 0x40 + 0x80) ::
        UInt8.ofNat (v % 0x40 + 0x80) :: bs) =
      some (Char.ofNat v) :: charsFrom .start bs := by
  have hfirst : ∃ due : UInt8 × UInt8, first (UInt8.ofNat (v / 262144 % 0x08 + 0xF0)) =
      ([], .within (v / 262144) due [tail, tail]) ∧
      due.1.toNat ≤ v / 4096 % 0x40 + 0x80 ∧ v / 4096 % 0x40 + 0x80 ≤ due.2.toNat := by
    rw [first_ofNat (by omega), if_neg (by omega), if_neg (by omega), if_neg (by omega),
      if_neg (by omega), if_neg (by omega), if_neg (by omega)]
    by_cases hlow : v / 262144 = 0
    · rw [if_pos (by omega), hlow]
      exact ⟨_, rfl, show 0x90 ≤ _ by omega, show _ ≤ 0xBF by omega⟩
    · rw [if_neg (by omega)]
      by_cases hhigh : v / 262144 = 4
      · rw [if_neg (by omega), if_pos (by omega), hhigh]
        exact ⟨_, rfl, show 0x80 ≤ _ by omega, show _ ≤ 0x8F by omega⟩
      · have hbits : v / 262144 % 0x08 + 0xF0 - 0xF0 = v / 262144 := by omega
        rw [if_pos (by omega), hbits]
        exact ⟨_, rfl, show 0x80 ≤ _ by omega, show _ ≤ 0xBF by omega⟩
  obtain ⟨due, hfirst, hdue⟩ := hfirst
  have hbits : ((v / 262144 * 64 + (v / 4096 % 0x40 + 0x80 - 0x80)) * 64 +
      (v / 64 % 0x40 + 0x80 - 0x80)) * 64 + (v % 0x40 + 0x80 - 0x80) = v := by omega
  rw [charsFrom_first hfirst, charsFrom_next (by omega) hdue,
    charsFrom_next (by omega) ⟨show 0x80 ≤ _ by omega, show _ ≤ 0xBF by omega⟩,
    charsFrom_last (by omega) ⟨show 0x80 ≤ _ by omega, show _ ≤ 0xBF by omega⟩, hbits]

/-- The bytes of a scalar value are decoded to that value. -/
theorem charsFrom_encodeChar (c : Char) (bs : Bytes) :
    charsFrom .start (String.utf8EncodeChar c ++ bs) = some c :: charsFrom .start bs := by
  have hscalar : c.val.toNat < 0xD800 ∨ 0xDFFF < c.val.toNat ∧ c.val.toNat < 0x110000 := c.valid
  have hchar : Char.ofNat c.val.toNat = c := Char.ofNat_toNat c
  unfold String.utf8EncodeChar
  dsimp only
  split
  · rw [List.singleton_append, charsFrom_cons, step, first_ofNat (by omega), if_pos (by omega),
      hchar]
    rfl
  · split
    · exact (charsFrom_two (by omega)).trans (by rw [hchar]; rfl)
    · split
      · exact (charsFrom_three (by omega) (by omega)).trans (by rw [hchar]; rfl)
      · exact (charsFrom_four (by omega)).trans (by rw [hchar]; rfl)

theorem charsFrom_ofChars (cs : List Char) :
    charsFrom .start ((Text.ofChars cs).flatMap CodePoint.utf8) = cs.map some := by
  induction cs with
  | nil => rfl
  | cons c cs ih =>
    change charsFrom .start (String.utf8EncodeChar c ++ (Text.ofChars cs).flatMap CodePoint.utf8) = _
    rw [charsFrom_encodeChar, ih, List.map_cons]

theorem exists_ofChars {position : Nat} {s : Text} (h : s.unencodable? position = none) :
    ∃ cs, s = Text.ofChars cs := by
  induction s generalizing position with
  | nil => exact ⟨[], rfl⟩
  | cons c s ih =>
    cases c with
    | scalar c =>
      obtain ⟨cs, rfl⟩ := ih h
      exact ⟨c :: cs, rfl⟩
    | surrogate half => cases h

/-- Decoding undoes encoding. -/
theorem decodeLossy_encode {s : Text} {bs : Bytes} (h : s.encode = .ok bs) :
    decodeLossy bs = s := by
  unfold Text.encode at h
  split at h
  · cases h
  · next hnone =>
    cases h
    obtain ⟨cs, rfl⟩ := exists_ofChars hnone
    rw [decodeLossy, charsFrom_ofChars, List.map_map]
    rfl

end Utf8

end LintReport
