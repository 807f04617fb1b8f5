import LintReport.Text.Basic

/-!
UTF-8. Encoding fails on half a surrogate pair and says where. Decoding runs a small automaton
over the bytes; bytes that spell no scalar value give one failure for each longest start of a
sequence that could still have become one, and either end the decoding or turn into U+FFFD.
-/
namespace LintReport

abbrev Bytes := List UInt8

/-- The first run of surrogate halves in a text that was to be encoded. -/
structure Unencodable where
  half : Fin 2048
  position : Nat
  count : Nat
deriving DecidableEq, Repr

namespace CodePoint

def isSurrogate : CodePoint → Bool
  | scalar _ => false
  | surrogate _ => true

/-- Does the unit stand for a single byte in the name of a file? U+DC80 to U+DCFF do, for the bytes
from 0x80 on that spell nothing. -/
def isFileByte (c : CodePoint) : Bool := 0xDC80 ≤ c.value && c.value ≤ 0xDCFF

/-- The bytes of a unit; half a surrogate pair has none. -/
def utf8 : CodePoint → Bytes
  | scalar c => String.utf8EncodeChar c
  | surrogate _ => []

end CodePoint

namespace Text

/-- The first run of surrogate halves, counting positions from `position`. -/
def unencodable? (position : Nat) : Text → Option Unencodable
  | [] => none
  | .scalar _ :: s => unencodable? (position + 1) s
  | .surrogate half :: s => some ⟨half, position, 1 + (s.takeWhile CodePoint.isSurrogate).length⟩

/-- The first run of surrogate halves in the name of a file, counting positions from `position`. It
starts at a half that stands for no byte. -/
def unnameable? (position : Nat) : Text → Option Unencodable
  | [] => none
  | .scalar _ :: s => unnameable? (position + 1) s
  | .surrogate half :: s =>
    if (CodePoint.surrogate half).isFileByte then
      unnameable? (position + 1) s
    else
      some ⟨half, position, 1 + (s.takeWhile CodePoint.isSurrogate).length⟩

/-- The bytes of a text without surrogate halves. -/
def encode (s : Text) : Except Unencodable Bytes :=
  match unencodable? 0 s with
  | some fault => .error fault
  | none => .ok (s.flatMap CodePoint.utf8)

end Text

namespace Utf8

/-- What has been read of a sequence: nothing, or `bits` with further bytes due in given ranges. -/
inductive State where
  | start
  | within (bits : Nat) (due : UInt8 × UInt8) (later : List (UInt8 × UInt8))
deriving DecidableEq, Repr

/-- A byte that continues a sequence, when nothing narrows it down. -/
def tail : UInt8 × UInt8 := (0x80, 0xBF)

/-- The decoder at the first byte of a sequence. A unit of output is `none` for bytes that spell
no scalar value. -/
def first (b : UInt8) : List (Option Char) × State :=
  if b < 0x80 then ([some (Char.ofNat b.toNat)], .start)
  else if b < 0xC2 then ([none], .start)
  else if b < 0xE0 then ([], .within (b.toNat - 0xC0) tail [])
  else if b = 0xE0 then ([], .within 0 (0xA0, 0xBF) [tail])
  else if b = 0xED then ([], .within 0xD (0x80, 0x9F) [tail])
  else if b < 0xF0 then ([], .within (b.toNat - 0xE0) tail [tail])
  else if b = 0xF0 then ([], .within 0 (0x90, 0xBF) [tail, tail])
  else if b < 0xF4 then ([], .within (b.toNat - 0xF0) tail [tail, tail])
  else if b = 0xF4 then ([], .within 4 (0x80, 0x8F) [tail, tail])
  else ([none], .start)

/-- One byte further. A byte that cannot continue a sequence begins the next one. -/
def step : State → UInt8 → List (Option Char) × State
  | .start, b => first b
  | .within bits due later, b =>
    if due.1 ≤ b ∧ b ≤ due.2 then
      let bits := bits * 64 + (b.toNat - 0x80)
      match later with
      | [] => ([some (Char.ofNat bits)], .start)
      | due :: later => ([], .within bits due later)
    else
      let (out, state) := first b
      (none :: out, state)

/-- The characters that the bytes spell from a given state on, and `none` for each failure. -/
def charsFrom : State → Bytes → List (Option Char)
  | .start, [] => []
  | .within _ _ _, [] => [none]
  | state, b :: bs =>
    let (out, state) := step state b
    out ++ charsFrom state bs

/-- Decoding in which bytes that spell no scalar value become U+FFFD. -/
def decodeLossy (bs : Bytes) : Text :=
  (charsFrom .start bs).map fun c => .scalar (c.getD '\uFFFD')

/-- Decoding that gives up on bytes that spell no scalar value. -/
def decode? (bs : Bytes) : Option Text :=
  ((charsFrom .start bs).mapM id).map Text.ofChars

end Utf8

end LintReport
