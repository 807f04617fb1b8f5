import LintReport.Number.Rounded

/-!
Places for values inside a message. A place starts with a percent sign; behind it come the name of
a member in brackets, marks, a width, a precision behind a point, a letter that means nothing, and
the letter of its kind, all but the last optional. The main statement is that reading a place
uses up some of the message.
-/
namespace LintReport.Message

inductive Base where
  | decimal
  | octal
  | hexadecimal
deriving DecidableEq, Repr

/-- How the value at a place is written. -/
inductive Kind where
  /-- A value as it is. -/
  | shown
  /-- A value in the notation of literals. -/
  | quoted
  /-- The same in ASCII. -/
  | ascii
  /-- A unit of text, as itself or by its number. -/
  | unit
  | whole (base : Base) (upper : Bool)
  | real (layout : Binary64.Layout) (upper : Bool)
deriving DecidableEq, Repr

def Kind.ofUnit? : CodePoint → Option Kind
  | .scalar 's' => some shown
  | .scalar 'r' => some quoted
  | .scalar 'a' => some ascii
  | .scalar 'c' => some unit
  | .scalar 'd' | .scalar 'i' | .scalar 'u' => some (whole .decimal false)
  | .scalar 'o' => some (whole .octal false)
  | .scalar 'x' => some (whole .hexadecimal false)
  | .scalar 'X' => some (whole .hexadecimal true)
  | .scalar 'f' => some (real .places false)
  | .scalar 'F' => some (real .places true)
  | .scalar 'e' => some (real .power false)
  | .scalar 'E' => some (real .power true)
  | .scalar 'g' => some (real .general false)
  | .scalar 'G' => some (real .general true)
  | _ => none

/-- A width or a precision: left out, a number, or the number that the next value is. -/
inductive Count where
  | absent
  | given (n : Nat)
  | next
deriving DecidableEq, Repr

structure Place where
  /-- The member of the only value that is meant. -/
  key : Option Text
  marks : Text
  width : Count
  precision : Count
  kind : Kind
deriving DecidableEq, Repr

def Place.has (mark : Char) (p : Place) : Bool := .scalar mark ∈ p.marks

/-- How many brackets are open behind a unit. -/
def openBehind (depth : Nat) (c : CodePoint) : Nat :=
  if c = .scalar ')' then depth - 1 else if c = .scalar '(' then depth + 1 else depth

/-- The text up to the bracket that closes `depth` open ones and one more, and what follows it. -/
def closing? : (depth : Nat) → Text → Option (Text × Text)
  | _, [] => none
  | 0, .scalar ')' :: s => some ([], s)
  | depth, c :: s =>
    (closing? (openBehind depth c) s).map fun (inside, rest) => (c :: inside, rest)

/-- The name in brackets at the start of a text, and what follows it. -/
def key? : Text → Option (Option Text × Text)
  | .scalar '(' :: s => (closing? 0 s).map fun (key, rest) => (some key, rest)
  | s => some (none, s)

def isMark (c : CodePoint) : Bool :=
  c ∈ [.scalar '-', .scalar '+', .scalar ' ', .scalar '#', .scalar '0']

/-- A count at the start of a text, and what follows it. -/
def count : Text → Count × Text
  | .scalar '*' :: s => (.next, s)
  | s =>
    match s.spanDigits CodePoint.asciiDigit? with
    | ([], rest) => (.absent, rest)
    | (ds, rest) => (.given (ofDigits ds), rest)

/-- A precision at the start of a text, and what follows it. A point alone means zero. -/
def precision : Text → Count × Text
  | .scalar '.' :: s =>
    match count s with
    | (.absent, rest) => (.given 0, rest)
    | found => found
  | s => (.absent, s)

/-- A text behind a letter that means nothing. -/
def withoutSize : Text → Text
  | .scalar 'h' :: s | .scalar 'l' :: s | .scalar 'L' :: s => s
  | s => s

/-- The place behind a percent sign, and what follows it. -/
def place? (s : Text) : Option (Place × Text) :=
  (key? s).bind fun (key, s) =>
    let (width, rest) := count (s.dropWhile isMark)
    let (precision, rest) := precision rest
    match withoutSize rest with
    | [] => none
    | c :: rest =>
      (Kind.ofUnit? c).map fun kind =>
        ({ key, marks := s.takeWhile isMark, width, precision, kind }, rest)

theorem closing?_length_le {s inside rest : Text} {depth : Nat}
    (h : closing? depth s = some (inside, rest)) : rest.length ≤ s.length := by
  fun_induction closing? depth s generalizing inside with
  | case1 => simp at h
  | case2 s =>
    simp only [Option.some.injEq, Prod.mk.injEq] at h
    simp [h.2]
  | case3 _ _ _ _ ih =>
    simp only [Option.map_eq_some_iff, Prod.mk.injEq, Prod.exists] at h
    obtain ⟨_, _, hclosing, -, rfl⟩ := h
    have := ih hclosing
    simp only [List.length_cons]
    omega

theorem key?_length_le {s rest : Text} {key : Option Text} (h : key? s = some (key, rest)) :
    rest.length ≤ s.length := by
  unfold key? at h
  split at h
  · simp only [Option.map_eq_some_iff, Prod.mk.injEq, Prod.exists] at h
    obtain ⟨a, b, hb, -, rfl⟩ := h
    have := closing?_length_le hb
    simp only [List.length_cons]
    omega
  · simp only [Option.some.injEq, Prod.mk.injEq] at h
    simp [h.2]

theorem spanDigits_length_le (digit? : CodePoint → Option Nat) (s : Text) :
    (s.spanDigits digit?).2.length ≤ s.length := by
  induction s with
  | nil => simp [Text.spanDigits]
  | cons c s ih =>
    rw [Text.spanDigits]
    split
    · simp only [List.length_cons]
      omega
    · simp

theorem count_length_le (s : Text) : (count s).2.length ≤ s.length := by
  unfold count
  split
  · simp
  · have := spanDigits_length_le CodePoint.asciiDigit? s
    split <;> simp_all

theorem precision_length_le (s : Text) : (precision s).2.length ≤ s.length := by
  unfold precision
  split
  · next s =>
    have := count_length_le s
    split <;> simp_all <;> omega
  · simp

theorem withoutSize_length_le (s : Text) : (withoutSize s).length ≤ s.length := by
  unfold withoutSize
  split <;> simp

/-- Reading a place uses up some of the message. -/
theorem place?_length_lt {s rest : Text} {p : Place} (h : place? s = some (p, rest)) :
    rest.length < s.length := by
  simp only [place?, Option.bind_eq_some_iff, Prod.exists] at h
  obtain ⟨key, r, hkey, h⟩ := h
  have hr := key?_length_le hkey
  have hmarks : (r.dropWhile isMark).length ≤ r.length := (List.dropWhile_suffix _).length_le
  have hcount := count_length_le (r.dropWhile isMark)
  have hprecision := precision_length_le (count (r.dropWhile isMark)).2
  have hsize := withoutSize_length_le (precision (count (r.dropWhile isMark)).2).2
  split at h
  · simp at h
  · next c tail htail =>
    simp only [Option.map_eq_some_iff, Prod.mk.injEq] at h
    obtain ⟨-, -, -, rfl⟩ := h
    rw [htail, List.length_cons] at hsize
    omega

end LintReport.Message
