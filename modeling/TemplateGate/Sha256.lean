/-
# `Sha256` — the digest behind fingerprints

SHA-256 on lists of bytes.  A message is closed with the bit 1, zeros and
its length in bits, and cut into blocks of sixteen words; each block is
stretched to a schedule of sixty-four words, and one round per word
turns the eight words of the state.

All arithmetic on words is modulo 2³², which is what `UInt32` does; the
length of the message, in contrast, is a natural number until it is
written.
-/

namespace TemplateGate.Sha256

/-- The eight words that the rounds transform. -/
structure State where
  a : UInt32
  b : UInt32
  c : UInt32
  d : UInt32
  e : UInt32
  f : UInt32
  g : UInt32
  h : UInt32
  deriving DecidableEq, Repr

/-- The state before the first block. -/
def State.initial : State :=
  ⟨0x6a09e667, 0xbb67ae85, 0x3c6ef372, 0xa54ff53a, 0x510e527f, 0x9b05688c, 0x1f83d9ab, 0x5be0cd19⟩

/-- The constants of the sixty-four rounds. -/
def roundConstants : List UInt32 := [
  0x428a2f98, 0x71374491, 0xb5c0fbcf, 0xe9b5dba5, 0x3956c25b, 0x59f111f1, 0x923f82a4, 0xab1c5ed5,
  0xd807aa98, 0x12835b01, 0x243185be, 0x550c7dc3, 0x72be5d74, 0x80deb1fe, 0x9bdc06a7, 0xc19bf174,
  0xe49b69c1, 0xefbe4786, 0x0fc19dc6, 0x240ca1cc, 0x2de92c6f, 0x4a7484aa, 0x5cb0a9dc, 0x76f988da,
  0x983e5152, 0xa831c66d, 0xb00327c8, 0xbf597fc7, 0xc6e00bf3, 0xd5a79147, 0x06ca6351, 0x14292967,
  0x27b70a85, 0x2e1b2138, 0x4d2c6dfc, 0x53380d13, 0x650a7354, 0x766a0abb, 0x81c2c92e, 0x92722c85,
  0xa2bfe8a1, 0xa81a664b, 0xc24b8b70, 0xc76c51a3, 0xd192e819, 0xd6990624, 0xf40e3585, 0x106aa070,
  0x19a4c116, 0x1e376c08, 0x2748774c, 0x34b0bcb5, 0x391c0cb3, 0x4ed8aa4a, 0x5b9cca4f, 0x682e6ff3,
  0x748f82ee, 0x78a5636f, 0x84c87814, 0x8cc70208, 0x90befffa, 0xa4506ceb, 0xbef9a3f7, 0xc67178f2]

/-- Rotates a word to the right, by an amount between 1 and 31. -/
def rotateRight (x : UInt32) (amount : UInt32) : UInt32 := (x >>> amount) ||| (x <<< (32 - amount))

/-- A natural number as bytes, the most significant first. -/
def bigEndian : (width : Nat) → Nat → List UInt8
  | 0, _ => []
  | width + 1, n => bigEndian width (n / 256) ++ [UInt8.ofNat n]

/-- The message with its closing bit, zeros and length: a multiple of 64 bytes. -/
def padded (message : List UInt8) : List UInt8 :=
  message ++ 0x80 :: (List.replicate ((119 - message.length % 64) % 64) 0 ++
    bigEndian 8 (message.length * 8))

/-- Four bytes as a word. -/
def word (a b c d : UInt8) : UInt32 :=
  (a.toUInt32 <<< 24) ||| (b.toUInt32 <<< 16) ||| (c.toUInt32 <<< 8) ||| d.toUInt32

/-- The words of a sequence of bytes; what is left over of a last word is dropped. -/
def words : List UInt8 → List UInt32
  | a :: b :: c :: d :: rest => word a b c d :: words rest
  | _ => []

/-- The word that follows the last sixteen words of a schedule. -/
def nextWord (window : List UInt32) : UInt32 :=
  let item (i : Nat) : UInt32 := window.getD i 0
  let s0 := rotateRight (item 1) 7 ^^^ rotateRight (item 1) 18 ^^^ (item 1 >>> 3)
  let s1 := rotateRight (item 14) 17 ^^^ rotateRight (item 14) 19 ^^^ (item 14 >>> 10)
  item 0 + s0 + item 9 + s1

/-- The schedule that grows out of a window of sixteen words. -/
def schedule : (count : Nat) → (window : List UInt32) → List UInt32
  | 0, _ => []
  | count + 1, window => window.headD 0 :: schedule count (window.tail ++ [nextWord window])

/-- One round, with the sum of its constant and its word of the schedule. -/
def State.round (s : State) (k w : UInt32) : State :=
  let s1 := rotateRight s.e 6 ^^^ rotateRight s.e 11 ^^^ rotateRight s.e 25
  let choice := (s.e &&& s.f) ^^^ (~~~s.e &&& s.g)
  let t1 := s.h + s1 + choice + k + w
  let s0 := rotateRight s.a 2 ^^^ rotateRight s.a 13 ^^^ rotateRight s.a 22
  let majority := (s.a &&& s.b) ^^^ (s.a &&& s.c) ^^^ (s.b &&& s.c)
  ⟨t1 + (s0 + majority), s.a, s.b, s.c, s.d + t1, s.e, s.f, s.g⟩

/-- The sum of two states, word by word. -/
def State.add (s t : State) : State :=
  ⟨s.a + t.a, s.b + t.b, s.c + t.c, s.d + t.d, s.e + t.e, s.f + t.f, s.g + t.g, s.h + t.h⟩

/-- What a block of sixteen words makes of a state. -/
def State.absorb (s : State) (block : List UInt32) : State :=
  s.add ((roundConstants.zip (schedule 64 block)).foldl (fun t (k, w) => t.round k w) s)

/-- The state after a number of blocks. -/
def absorbAll : (blocks : Nat) → State → List UInt32 → State
  | 0, s, _ => s
  | blocks + 1, s, ws => absorbAll blocks (s.absorb (ws.take 16)) (ws.drop 16)

/-- The words of a state as bytes. -/
def State.bytes (s : State) : List UInt8 :=
  [s.a, s.b, s.c, s.d, s.e, s.f, s.g, s.h].flatMap fun w => bigEndian 4 w.toNat

/-- The 32 bytes of the digest of a message. -/
def digest (message : List UInt8) : List UInt8 :=
  let ws := words (padded message)
  (absorbAll (ws.length / 16) .initial ws).bytes

end TemplateGate.Sha256
