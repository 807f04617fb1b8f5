import LintReport.Json.Basic
import LintReport.Json.Mistake

/-!
Reading JSON text. Beyond the standard, the words `NaN`, `Infinity` and `-Infinity` are doubles,
half a surrogate pair may be escaped on its own, and a byte-order mark before the value is an
error. A number with a fraction or an exponent is a double, however large its exponent; a whole
number with more than 4300 digits is refused.
-/
namespace LintReport.Json

/-- A value that stood at the start of a text, and what follows it. -/
abbrev Reading (α : Type) := Except ReadError (α × Text)

def mistakeAt {α : Type} (mistake : Mistake) (s : Text) : Except ReadError α :=
  .error (.malformed mistake s.length)

/-- The four units that may stand between tokens. -/
def isSpace (c : CodePoint) : Bool :=
  c = .scalar ' ' ∨ c = .scalar '\t' ∨ c = .scalar '\n' ∨ c = .scalar '\r'

def skipSpace (s : Text) : Text := s.dropWhile isSpace

/-! ### Strings -/

/-- A unit of a string literal: one that stands for itself or has a short escape, or a number
that was escaped in hexadecimal. -/
inductive Piece where
  | plain (c : CodePoint)
  | numbered (n : Nat)
deriving DecidableEq, Repr

def hexDigit? : CodePoint → Option Nat
  | .scalar c =>
    if c.isDigit then some (c.toNat - 48)
    else if 'a' ≤ c ∧ c ≤ 'f' then some (c.toNat - 87)
    else if 'A' ≤ c ∧ c ≤ 'F' then some (c.toNat - 55)
    else none
  | .surrogate _ => none

def hex4? (a b c d : CodePoint) : Option Nat := do
  return (((← hexDigit? a) * 16 + (← hexDigit? b)) * 16 + (← hexDigit? c)) * 16 + (← hexDigit? d)

def shortEscape? : CodePoint → Option CodePoint
  | .scalar '"' => some (.scalar '"')
  | .scalar '\\' => some (.scalar '\\')
  | .scalar '/' => some (.scalar '/')
  | .scalar 'b' => some (.scalar '\x08')
  | .scalar 'f' => some (.scalar '\x0C')
  | .scalar 'n' => some (.scalar '\n')
  | .scalar 'r' => some (.scalar '\r')
  | .scalar 't' => some (.scalar '\t')
  | _ => none

/-- The pieces of a string literal whose opening quote has been read. The four digits of a numbered
escape cannot be the end of the text. A literal without an end counts as a mistake at that end. -/
def readPieces : Text → Reading (List Piece)
  | [] => mistakeAt .openString []
  | .scalar '"' :: s => .ok ([], s)
  | .scalar '\\' :: .scalar 'u' :: a :: b :: c :: d :: s =>
    match hex4? a b c d, s with
    | some n, _ :: _ =>
      (readPieces s).map fun (pieces, rest) => (.numbered n :: pieces, rest)
    | _, s => mistakeAt .brokenNumberedEscape (.scalar 'u' :: a :: b :: c :: d :: s)
  | .scalar '\\' :: e :: s =>
    match shortEscape? e with
    | none =>
      if e = .scalar 'u' then
        mistakeAt .brokenNumberedEscape (e :: s)
      else
        mistakeAt .unknownEscape (.scalar '\\' :: e :: s)
    | some c => (readPieces s).map fun (pieces, rest) => (.plain c :: pieces, rest)
  | [.scalar '\\'] => mistakeAt .openString []
  | c :: s =>
    if c.value < 0x20 then
      mistakeAt .controlCharacter (c :: s)
    else
      (readPieces s).map fun (pieces, rest) => (.plain c :: pieces, rest)

/-- The text of a literal: two escaped halves of a surrogate pair in a row are one character. -/
def textOfPieces : List Piece → Text
  | [] => []
  | .plain c :: pieces => c :: textOfPieces pieces
  | .numbered high :: .numbered low :: pieces =>
    if 0xD800 ≤ high ∧ high < 0xDC00 ∧ 0xDC00 ≤ low ∧ low < 0xE000 then
      .ofNat (0x10000 + (high - 0xD800) * 0x400 + (low - 0xDC00)) :: textOfPieces pieces
    else
      .ofNat high :: textOfPieces (.numbered low :: pieces)
  | .numbered n :: pieces => .ofNat n :: textOfPieces pieces

/-- A string literal whose opening quote has been read. The quote is where it has no end. -/
def readString (s : Text) : Reading Text :=
  match readPieces s with
  | .ok (pieces, rest) => .ok (textOfPieces pieces, rest)
  | .error (.malformed .openString _) => mistakeAt .openString (.scalar '"' :: s)
  | .error e => .error e

/-! ### Numbers -/

def spanDigits (s : Text) : List Nat × Text := s.spanDigits CodePoint.asciiDigit?

/-- The whole part of a number: a single zero, or digits that start with none. -/
def spanWhole : Text → List Nat × Text
  | .scalar '0' :: s => ([0], s)
  | s => spanDigits s

/-- The digits of a fraction, if a point and a digit stand at the start. -/
def spanFraction : Text → List Nat × Text
  | .scalar '.' :: s =>
    match spanDigits s with
    | ([], _) => ([], .scalar '.' :: s)
    | found => found
  | s => ([], s)

def spanExponent (s : Text) : Option Int × Text :=
  match s with
  | c :: r =>
    if c = .scalar 'e' ∨ c = .scalar 'E' then
      let (negative, body) := Text.splitSign r
      match spanDigits body with
      | ([], _) => (none, s)
      | (ds, rest) => (some (if negative then -(ofDigits ds : Int) else ofDigits ds), rest)
    else
      (none, s)
  | [] => (none, s)

def readNumber (s : Text) : Reading Json :=
  let (negative, body) := match s with
    | .scalar '-' :: r => (true, r)
    | r => (false, r)
  let (whole, afterWhole) := spanWhole body
  let (fraction, afterFraction) := spanFraction afterWhole
  let (exponent, rest) := spanExponent afterFraction
  if whole = [] then
    mistakeAt .noValue s
  else if fraction = [] ∧ exponent = none then
    if whole.length ≤ maxDigits then
      .ok (.int (if negative then -(ofDigits whole : Int) else ofDigits whole), rest)
    else
      .error (.oversizedNumber whole.length)
  else
    .ok (.float (.ofDecimal negative (ofDigits (whole ++ fraction))
      (exponent.getD 0 - fraction.length)), rest)

/-! ### Values -/

def words : List (Text × Json) :=
  [("null", null), ("true", bool true), ("false", bool false), ("NaN", float .nan),
   ("Infinity", float (.infinite false)), ("-Infinity", float (.infinite true))]

def readWord? (s : Text) : Option (Json × Text) :=
  words.findSome? fun (word, value) => (Text.after? word s).map (value, ·)

mutual

/-- A value at the start of a text. The fuel bounds the depth of the recursion; twice the length
of the text suffices. -/
def readValue : (fuel : Nat) → Text → Except ReadError (Json × Text)
  | 0, s => mistakeAt .noValue s
  | fuel + 1, s =>
    match s with
    | .scalar '"' :: r => (readString r).map fun (t, rest) => (.string t, rest)
    | .scalar '[' :: r =>
      match skipSpace r with
      | .scalar ']' :: rest => .ok (.array [], rest)
      | r => (readItems fuel r).map fun (items, rest) => (.array items, rest)
    | .scalar '{' :: r =>
      match skipSpace r with
      | .scalar '}' :: rest => .ok (.object [], rest)
      | r => (readMembers fuel r).map fun (pairs, rest) => (.object (Table.ofList pairs), rest)
    | s =>
      match readWord? s with
      | some found => .ok found
      | none => readNumber s

/-- The items of an array from one of them on, up to the closing bracket. -/
def readItems : (fuel : Nat) → Text → Except ReadError (List Json × Text)
  | 0, s => mistakeAt .noValue s
  | fuel + 1, s => do
    let (v, r) ← readValue fuel s
    match skipSpace r with
    | .scalar ']' :: rest => .ok ([v], rest)
    | .scalar ',' :: r =>
      (readItems fuel (skipSpace r)).map fun (vs, rest) => (v :: vs, rest)
    | r => mistakeAt .noComma r

/-- The members of an object from one of them on, up to the closing brace. -/
def readMembers : (fuel : Nat) → Text → Except ReadError (List (Text × Json) × Text)
  | 0, s => mistakeAt .noName s
  | fuel + 1, s =>
    match s with
    | .scalar '"' :: r => do
      let (name, r) ← readString r
      match skipSpace r with
      | .scalar ':' :: r => do
        let (v, r) ← readValue fuel (skipSpace r)
        match skipSpace r with
        | .scalar '}' :: rest => .ok ([(name, v)], rest)
        | .scalar ',' :: r =>
          (readMembers fuel (skipSpace r)).map fun (ms, rest) => ((name, v) :: ms, rest)
        | r => mistakeAt .noComma r
      | r => mistakeAt .noColon r
    | s => mistakeAt .noName s

end

/-- The value that a whole text spells. -/
def read (s : Text) : Except ReadError Json :=
  match s with
  | .scalar '\uFEFF' :: _ => mistakeAt .byteOrderMark s
  | s => do
    let (v, r) ← readValue (2 * s.length + 2) (skipSpace s)
    match skipSpace r with
    | [] => .ok v
    | r => mistakeAt .extraText r

end LintReport.Json
