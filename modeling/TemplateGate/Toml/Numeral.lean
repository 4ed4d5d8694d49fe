/-
# `Toml.Numeral` — numbers as they are written

A document may hold numbers that nobody reads, and nothing in this library
computes with them.  So a number is kept as it is written, without its
underscores, and two questions about it are apart: `ofRun?` says whether
a run of characters is a numeral, `denotes` whether a number can be read
from it.  A numeral that is never read need not denote one.

* Underscores stand between two digits.  Letters up to `f` count as
  digits here, except in a float.
* An integer has no leading zeros; what follows its first underscore is
  looked at only when it is read.  To a base other than ten it has no
  sign, and it may even lack digits until it is read.
* A float has digits before its point, behind it and in its exponent.
* An integer is read if it fits 128 bits, a float if it is finite in
  binary64 or written by name.
-/
import TemplateGate.Decimal.Double
import TemplateGate.Text.Basic

namespace TemplateGate.Toml

open Text

/-- A number as it is written, without underscores. -/
inductive Numeral where
  | integer (base : Nat) (text : List Char)
  | float (text : List Char)
  deriving DecidableEq, Repr

namespace Numeral

/-! ## What is written -/

/-- The text behind a sign, if there is one. -/
def behindSign : List Char → List Char
  | '-' :: rest => rest
  | '+' :: rest => rest
  | rest => rest

/-- Whether a character is a digit to a base. -/
def isDigitOf (base : Nat) (c : Char) : Bool := (hexValue? c).any (· < base)

/-- Whether every underscore stands between two digits. -/
def separates (isDigit : Char → Bool) : List Char → Bool
  | [] => true
  | '_' :: _ => false
  | [_, '_'] => false
  | a :: '_' :: b :: rest => isDigit a && isDigit b && separates isDigit (b :: rest)
  | _ :: rest => separates isDigit rest

/-- The text without its underscores. -/
def joined (cs : List Char) : List Char := cs.filter (· != '_')

/-- Whether a text without a sign starts with a zero that has no place there. -/
def hasLeadingZero : List Char → Bool
  | '0' :: c :: _ => c.isDigit || c == '_'
  | _ => false

/-- Whether a text is the name of a float. -/
def isName (cs : List Char) : Bool := cs == ['i', 'n', 'f'] || cs == ['n', 'a', 'n']

/-- Whether a character starts an exponent. -/
def isExponentMark (c : Char) : Bool := c == 'e' || c == 'E'

/-- The parts of a float without a sign: the digits before its point, the
digits behind it, and the exponent, each with the mark before it. -/
structure FloatParts where
  whole : List Char
  fraction : List Char
  exponent : List Char

/-- The parts of a float without a sign. -/
def floatParts (cs : List Char) : FloatParts :=
  let mantissa := cs.takeWhile (!isExponentMark ·)
  ⟨mantissa.takeWhile (· != '.'), mantissa.dropWhile (· != '.'), cs.dropWhile (!isExponentMark ·)⟩

/-- Whether a text is made of digits, at least one. -/
def isDigits (cs : List Char) : Bool := !cs.isEmpty && cs.all Char.isDigit

/-- Whether a text without sign and underscores is a float with digits
wherever they are due. -/
def isFloat (cs : List Char) : Bool :=
  let p := floatParts cs
  isDigits p.whole && (p.fraction.isEmpty || isDigits p.fraction.tail) &&
    (p.exponent.isEmpty || isDigits (behindSign p.exponent.tail))

/-- The numeral to a base, from behind the mark of the base. -/
def based? (base : Nat) (cs : List Char) : Option Numeral :=
  if cs.all (fun c => isDigitOf base c || c == '_') && separates (isDigitOf 16) cs then
    some (.integer base (joined cs))
  else none

/-- The decimal numeral of a run. -/
def decimal? (cs : List Char) : Option Numeral :=
  let digits := behindSign cs
  let rest := digits.dropWhile Char.isDigit
  if isName digits then some (.float cs)
  else if digits.isEmpty || hasLeadingZero digits || rest.contains ' ' then none
  else if rest.any fun c => c == '.' || isExponentMark c then
    if separates Char.isDigit cs && isFloat (joined digits) then some (.float (joined cs))
    else none
  else if (rest.isEmpty || rest.head? == some '_') && separates (isDigitOf 16) cs then
    some (.integer 10 (joined cs))
  else none

/-- The numeral of a run. -/
def ofRun? : List Char → Option Numeral
  | '0' :: 'x' :: digits => based? 16 digits
  | '0' :: 'o' :: digits => based? 8 digits
  | '0' :: 'b' :: digits => based? 2 digits
  | cs => decimal? cs

/-! ## What can be read -/

/-- The number of a list of digits to a base. -/
def digitsValue (base : Nat) (digits : List Char) : Nat :=
  digits.foldl (fun acc c => acc * base + (hexValue? c).getD 0) 0

/-- Whether an integer can be read: it has digits, all of its base, and
fits 128 bits, with a minus sign or without one. -/
def denotesInteger (base : Nat) (text : List Char) : Bool :=
  let digits := behindSign text
  !digits.isEmpty && digits.all (isDigitOf base) &&
    if text.head? = some '-' then digitsValue base digits ≤ Decimal.twoTo 127
    else digitsValue base digits < Decimal.twoTo 128

/-- The exponent that a text with a sign or without one denotes. -/
def exponentValue (cs : List Char) : Int :=
  let n : Int := readNumeral (behindSign cs)
  if cs.head? = some '-' then -n else n

/-- The least number that binary64 rounds beyond its range, halfway
between 2¹⁰²⁴ and the number before it. -/
def overflowBound : Nat := Decimal.twoTo 1024 - Decimal.twoTo 970

/-- How many digits `overflowBound` has. -/
def boundDigits : Nat := 309

/-- Whether the number with the given decimal digits, the first of them
not zero, and the point behind `place` of them is below `overflowBound`. -/
def isBelowBound (digits : List Char) (place : Int) : Bool :=
  if digits.isEmpty then true
  else if place = boundDigits then
    readNumeral digits * Decimal.tenTo (boundDigits - digits.length) <
      overflowBound * Decimal.tenTo (digits.length - boundDigits)
  else place < boundDigits

/-- Whether a float without a sign can be read. -/
def denotesFloat (cs : List Char) : Bool :=
  let p := floatParts cs
  let digits := (p.whole ++ p.fraction.tail).dropWhile (· == '0')
  isName cs ||
    isBelowBound digits (digits.length - p.fraction.tail.length + exponentValue p.exponent.tail)

/-- Whether a number can be read from a numeral. -/
def denotes : Numeral → Bool
  | integer base text => denotesInteger base text
  | float text => denotesFloat (behindSign text)

end Numeral

end TemplateGate.Toml
