/-
# `Text.Basic` — white space, numerals, and texts inside one another

The program asks three questions about white space: is a configuration
file blank, is a recommendation blank, and what does a compiler's
complaint look like without its margins.  All three read "white space"
as the Unicode property `White_Space`, which is wider than the four
characters a JSON text may be laid out with and narrower than "anything
invisible": U+180E, U+200B, U+2060 and U+FEFF are not in it.

Decimal numerals stand for positions and counts, with leading zeros where
a width is fixed (dates), and two hexadecimal digits per byte for
fingerprints and escapes.  `numeral` is undone by `readNumeral`.

Names are matched against abbreviations, and resource types against the
markers of the security rules, by plain containment: no word boundaries,
no folding of case.  `occursIn` is the test and `occursIn_iff` its
meaning: the characters of the first text stand next to each other, in
order, somewhere in the second.
-/

namespace TemplateGate.Text

/-! ## White space -/

/-- The Unicode property `White_Space`: ten ranges, 25 characters. -/
def isBlank (c : Char) : Bool :=
  let n := c.toNat
  (0x09 ≤ n && n ≤ 0x0D) || n == 0x20 || n == 0x85 || n == 0xA0 || n == 0x1680 ||
    (0x2000 ≤ n && n ≤ 0x200A) || n == 0x2028 || n == 0x2029 || n == 0x202F ||
    n == 0x205F || n == 0x3000

/-- A text is blank when it holds white space only; the empty text is blank. -/
def allBlank (s : String) : Bool := s.toList.all isBlank

/-- The characters up to the last one that is not white space. -/
def dropBlankEnd (cs : List Char) : List Char := (cs.reverse.dropWhile isBlank).reverse

/-- The text without white space at its end. -/
def trimEnd (s : String) : String := String.ofList (dropBlankEnd s.toList)

/-- The text without white space at either end. -/
def trim (s : String) : String :=
  String.ofList (dropBlankEnd (s.toList.dropWhile isBlank))

/-! ## Positional notation -/

/-- The decimal numeral of a number, without leading zeros. -/
def numeral (n : Nat) : String := String.ofList (Nat.toDigits 10 n)

/-- The decimal numeral of an integer, with a minus sign before a negative one. -/
def signedNumeral : Int → String
  | .ofNat n => numeral n
  | .negSucc n => "-" ++ numeral (n + 1)

/-- The number that a list of decimal digits stands for. -/
def readNumeral (cs : List Char) : Nat := Nat.ofDigitChars 10 cs 0

theorem readNumeral_toDigits (n : Nat) : readNumeral (Nat.toDigits 10 n) = n :=
  Nat.ofDigitChars_toDigits (by decide) (by decide)

/-- The last `width` decimal digits of a number, leading zeros included. -/
def padded : (width : Nat) → Nat → List Char
  | 0, _ => []
  | width + 1, n => padded width (n / 10) ++ [(n % 10).digitChar]

/-- The value of a decimal digit. -/
def digitValue? (c : Char) : Option Nat :=
  if '0' ≤ c ∧ c ≤ '9' then some (c.toNat - '0'.toNat) else none

/-- The value of a hexadecimal digit, of either case. -/
def hexValue? (c : Char) : Option Nat :=
  if '0' ≤ c ∧ c ≤ '9' then some (c.toNat - '0'.toNat)
  else if 'a' ≤ c ∧ c ≤ 'f' then some (c.toNat - 'a'.toNat + 10)
  else if 'A' ≤ c ∧ c ≤ 'F' then some (c.toNat - 'A'.toNat + 10)
  else none

/-- The number that a list of hexadecimal digits stands for. -/
def readHex? (cs : List Char) : Option Nat :=
  cs.foldl (fun acc c => do pure ((← acc) * 16 + (← hexValue? c))) (some 0)

/-- The two lower-case hexadecimal digits of a number below 256. -/
def hexPair (n : Nat) : List Char := [(n / 16 % 16).digitChar, (n % 16).digitChar]

/-- A sequence of bytes as lower-case hexadecimal digits. -/
def hex (bytes : List UInt8) : String :=
  String.ofList (bytes.flatMap fun b => hexPair b.toNat)

/-! ## Containment -/

/-- Whether the first list of characters stands contiguously in the second. -/
def occursAt (needle : List Char) : List Char → Bool
  | [] => needle.isEmpty
  | c :: cs => needle.isPrefixOf (c :: cs) || occursAt needle cs

/-- Whether `needle` occurs in `hay`; the empty text occurs in every text. -/
def occursIn (needle hay : String) : Bool := occursAt needle.toList hay.toList

theorem occursAt_iff {needle : List Char} :
    ∀ {hay : List Char}, occursAt needle hay = true ↔ needle <:+: hay
  | [] => by simp [occursAt, List.isEmpty_iff]
  | c :: cs => by
      rw [occursAt, Bool.or_eq_true, List.isPrefixOf_iff_prefix, occursAt_iff,
        List.infix_cons_iff]

/-- Containment is being a contiguous piece of the list of characters. -/
theorem occursIn_iff {needle hay : String} :
    occursIn needle hay = true ↔ needle.toList <:+: hay.toList :=
  occursAt_iff

end TemplateGate.Text
