/-!
Text as the tools print it and as JSON can spell it: a list of Unicode scalar values in which
a half of a surrogate pair may stand alone. Everything that scans text here is recursion over
that list, so a mark is found, cut out or replaced by looking at the list from the left.
-/
namespace LintReport

/-- One unit of text: a scalar value, or a half of a surrogate pair that has lost its other half. -/
inductive CodePoint where
  | scalar (c : Char)
  | surrogate (half : Fin 2048)
deriving DecidableEq, Repr

namespace CodePoint

def value : CodePoint → Nat
  | scalar c => c.toNat
  | surrogate half => 0xD800 + half.val

/-- The unit with a given number; numbers beyond Unicode give the replacement character. -/
def ofNat (n : Nat) : CodePoint :=
  if h : 0xD800 ≤ n ∧ n < 0xE000 then
    surrogate ⟨n - 0xD800, by omega⟩
  else if n < 0x110000 then
    scalar (Char.ofNat n)
  else
    scalar (Char.ofNat 0xFFFD)

/-- Membership of the unit's number in a sorted list of closed ranges. -/
def inRanges (ranges : List (Nat × Nat)) (c : CodePoint) : Bool :=
  ranges.any fun r => r.1 ≤ c.value && c.value ≤ r.2

instance : Coe Char CodePoint := ⟨scalar⟩

end CodePoint

abbrev Text := List CodePoint

namespace Text

def ofString (s : String) : Text := s.toList.map CodePoint.scalar

def ofChars (cs : List Char) : Text := cs.map CodePoint.scalar

instance : Coe String Text := ⟨ofString⟩

/-- The string with the same characters, where a lone half of a surrogate pair becomes U+FFFD. -/
def toStringLossy (t : Text) : String :=
  String.ofList (t.map fun
    | CodePoint.scalar c => c
    | CodePoint.surrogate _ => '\uFFFD')

/-- What follows `mark` in a text that begins with it. -/
def after? : (mark s : Text) → Option Text
  | [], s => some s
  | _ :: _, [] => none
  | m :: mark, c :: s => if m = c then after? mark s else none

def beginsWith (mark s : Text) : Bool := (after? mark s).isSome

/-- The text before and the text after the first occurrence of `mark`. -/
def cut? (mark : Text) : Text → Option (Text × Text)
  | [] => if mark = [] then some ([], []) else none
  | c :: s =>
    match after? mark (c :: s) with
    | some rest => some ([], rest)
    | none => (cut? mark s).map fun (before, rest) => (c :: before, rest)

/-- Replacement from the left, where the first `skip` units belong to an occurrence that has
already been replaced. -/
def replaceFrom (mark new : Text) : (skip : Nat) → Text → Text
  | _, [] => []
  | skip + 1, _ :: s => replaceFrom mark new skip s
  | 0, c :: s =>
    if beginsWith mark (c :: s) then
      new ++ replaceFrom mark new (mark.length - 1) s
    else
      c :: replaceFrom mark new 0 s

/-- Every occurrence of `mark`, taken from the left and without overlap, is replaced by `new`. -/
def replace (mark new s : Text) : Text := replaceFrom mark new 0 s

/-- The parts between the occurrences of a separator; a text without it is one part. -/
def fields (separator : CodePoint) : Text → List Text
  | [] => [[]]
  | c :: s =>
    if c = separator then
      [] :: fields separator s
    else
      match fields separator s with
      | [] => [[c]]
      | part :: parts => (c :: part) :: parts

def join (separator : Text) : List Text → Text
  | [] => []
  | [part] => part
  | part :: parts => part ++ separator ++ join separator parts

/-- The text without the units in `drop` at its end. -/
def trimRight (drop : CodePoint → Bool) (s : Text) : Text :=
  (s.reverse.dropWhile drop).reverse

/-- The text without the units in `drop` at either end. -/
def trim (drop : CodePoint → Bool) (s : Text) : Text :=
  trimRight drop (s.dropWhile drop)

theorem after?_eq_some {mark s rest : Text} : after? mark s = some rest ↔ s = mark ++ rest := by
  induction mark generalizing s with
  | nil => simp [after?]
  | cons m mark ih =>
    cases s with
    | nil => simp [after?]
    | cons c s =>
      by_cases h : m = c
      · simp [after?, h, ih]
      · simp [after?, h, Ne.symm h]

/-- A cut loses nothing but the mark. -/
theorem eq_of_cut?_eq_some {mark s before rest : Text} (h : cut? mark s = some (before, rest)) :
    s = before ++ mark ++ rest := by
  induction s generalizing before with
  | nil =>
    by_cases hm : mark = []
    · simp_all [cut?]
    · simp [cut?, hm] at h
  | cons c s ih =>
    rw [cut?] at h
    split at h
    · next r hr =>
      simp only [Option.some.injEq, Prod.mk.injEq] at h
      obtain ⟨rfl, rfl⟩ := h
      simpa using after?_eq_some.mp hr
    · next hr =>
      simp only [Option.map_eq_some_iff, Prod.mk.injEq, Prod.exists] at h
      obtain ⟨b, r, hb, rfl, rfl⟩ := h
      simp [ih hb]

end Text

end LintReport
