/-
# `Text.Utf8` — texts from bytes

A file and the output of a compiler arrive as bytes.  Where the bytes
must be a text they are decoded strictly (`decode`); what a failed
compiler wrote to its error stream is shown as well as possible
(`decodeLossy`), with U+FFFD in place of each longest piece that starts
like a character and does not go on like one.

Both are read off one machine.  Between characters it is `idle`; inside
one it knows how many bytes are still owed, the range the next one must
lie in and the value collected so far.  A byte out of range ends the
broken piece and is then looked at again as a first byte.
-/

namespace TemplateGate.Text

/-- Where the machine stands between two bytes. -/
inductive Utf8State where
  /-- Between characters. -/
  | idle
  /-- Inside a character: `owed + 1` bytes are missing, the next of them
  in `low … high`; `value` holds the bits seen so far. -/
  | inside (low high : UInt8) (owed value : Nat)
  deriving DecidableEq, Repr

/-- What a byte does between characters: a piece of output, if it ends
one, and the next state. -/
def Utf8State.first (b : UInt8) : List (Option Char) × Utf8State :=
  let n := b.toNat
  if n < 0x80 then ([some (Char.ofNat n)], .idle)
  else if n < 0xC2 then ([none], .idle)
  else if n < 0xE0 then ([], .inside 0x80 0xBF 0 (n - 0xC0))
  else if n = 0xE0 then ([], .inside 0xA0 0xBF 1 0)
  else if n = 0xED then ([], .inside 0x80 0x9F 1 (n - 0xE0))
  else if n < 0xF0 then ([], .inside 0x80 0xBF 1 (n - 0xE0))
  else if n = 0xF0 then ([], .inside 0x90 0xBF 2 0)
  else if n < 0xF4 then ([], .inside 0x80 0xBF 2 (n - 0xF0))
  else if n = 0xF4 then ([], .inside 0x80 0x8F 2 (n - 0xF0))
  else ([none], .idle)

/-- What a byte does in any state. -/
def Utf8State.step : Utf8State → UInt8 → List (Option Char) × Utf8State
  | .idle, b => first b
  | .inside low high owed value, b =>
      if low ≤ b ∧ b ≤ high then
        let value' := value * 64 + (b.toNat - 0x80)
        match owed with
        | 0 => ([some (Char.ofNat value')], .idle)
        | owed' + 1 => ([], .inside 0x80 0xBF owed' value')
      else
        let (out, next) := first b
        (none :: out, next)

/-- The characters of a sequence of bytes, `none` for each broken piece. -/
def utf8Pieces : Utf8State → List UInt8 → List (Option Char)
  | .idle, [] => []
  | .inside .., [] => [none]
  | st, b :: bs => (st.step b).1 ++ utf8Pieces (st.step b).2 bs

/-- The text that the bytes encode; `none` if they encode none. -/
def decode (bytes : List UInt8) : Option String :=
  ((utf8Pieces .idle bytes).mapM id).map String.ofList

/-- The text that the bytes encode, U+FFFD standing for each broken piece. -/
def decodeLossy (bytes : List UInt8) : String :=
  String.ofList ((utf8Pieces .idle bytes).map fun c => c.getD '\uFFFD')

/-- The bytes of a text. -/
def encode (s : String) : List UInt8 := s.toUTF8.toList

/-- The number of bytes of a character. -/
def utf8Width (c : Char) : Nat :=
  let n := c.toNat
  if n < 0x80 then 1 else if n < 0x800 then 2 else if n < 0x10000 then 3 else 4

/-- The number of bytes of a list of characters. -/
def utf8Length (cs : List Char) : Nat := cs.foldl (fun n c => n + utf8Width c) 0

end TemplateGate.Text
