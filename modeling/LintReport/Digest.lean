import LintReport.Text.Utf8
import LintReport.Text.Quoted

/-!
The digest SHA-1 of a byte sequence, in hexadecimal.
-/
namespace LintReport.Digest

def rotate (w : UInt32) (n : UInt32) : UInt32 := (w <<< n) ||| (w >>> (32 - n))

/-- The big-endian bytes of the lowest `8 * count` bits. -/
def bigEndian : (count n : Nat) → Bytes
  | 0, _ => []
  | count + 1, n => bigEndian count (n / 256) ++ [UInt8.ofNat (n % 256)]

/-- The bytes followed by a single one bit, zeros and the length in bits, so that the whole is a
multiple of 64 bytes. -/
def pad (bs : Bytes) : Bytes :=
  bs ++ 0x80 :: List.replicate ((119 - bs.length % 64) % 64) 0 ++ bigEndian 8 (8 * bs.length)

def words : Bytes → List UInt32
  | a :: b :: c :: d :: rest =>
    ((a.toUInt32 <<< 24) ||| (b.toUInt32 <<< 16) ||| (c.toUInt32 <<< 8) ||| d.toUInt32) ::
      words rest
  | _ => []

/-- The words in groups of sixteen. -/
def blocks : List UInt32 → (fuel : Nat) → List (List UInt32)
  | _, 0 => []
  | [], _ => []
  | ws, fuel + 1 => ws.take 16 :: blocks (ws.drop 16) fuel

/-- The schedule of a block, last word first, after `count` further words. -/
def extend : (count : Nat) → (schedule : List UInt32) → List UInt32
  | 0, schedule => schedule
  | count + 1, schedule =>
    let w := schedule.getD 2 0 ^^^ schedule.getD 7 0 ^^^ schedule.getD 13 0 ^^^ schedule.getD 15 0
    extend count (rotate w 1 :: schedule)

structure State where
  a : UInt32
  b : UInt32
  c : UInt32
  d : UInt32
  e : UInt32
deriving DecidableEq, Repr

def State.initial : State := ⟨0x67452301, 0xEFCDAB89, 0x98BADCFE, 0x10325476, 0xC3D2E1F0⟩

/-- One round, in which the constant and the mixing function change every twenty rounds. -/
def State.round (s : State) (t : Nat) (w : UInt32) : State :=
  let (f, k) : UInt32 × UInt32 :=
    if t < 20 then ((s.b &&& s.c) ||| (~~~s.b &&& s.d), 0x5A827999)
    else if t < 40 then (s.b ^^^ s.c ^^^ s.d, 0x6ED9EBA1)
    else if t < 60 then ((s.b &&& s.c) ||| (s.b &&& s.d) ||| (s.c &&& s.d), 0x8F1BBCDC)
    else (s.b ^^^ s.c ^^^ s.d, 0xCA62C1D6)
  ⟨rotate s.a 5 + f + s.e + k + w, s.a, rotate s.b 30, s.c, s.d⟩

def State.rounds (s : State) (t : Nat) : List UInt32 → State
  | [] => s
  | w :: ws => (s.round t w).rounds (t + 1) ws

def State.absorb (s : State) (block : List UInt32) : State :=
  let r := s.rounds 0 (extend 64 block.reverse).reverse
  ⟨s.a + r.a, s.b + r.b, s.c + r.c, s.d + r.d, s.e + r.e⟩

/-- The digest, as forty hexadecimal digits. -/
def sha1 (bs : Bytes) : Text :=
  let ws := words (pad bs)
  let s := (blocks ws ws.length).foldl State.absorb .initial
  Text.ofChars ([s.a, s.b, s.c, s.d, s.e].flatMap fun w => hexDigits 8 w.toNat)

end LintReport.Digest
