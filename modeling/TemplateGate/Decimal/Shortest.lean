/-
# `Decimal.Shortest` — the fewest digits that read back

A double is written with the fewest decimal digits that are nearer to it
than to any other double, and of the numerals with that many digits the
nearest one.  The search is exact.  The reals that round to the number
form an interval, given here in quarters of a unit so that its ends are
integers; for 1, 2, … 17 digits the two numerals around the number on
that decimal grid are tested against it, and the first grid with a hit
wins.  If a numeral of a grid lies in the interval at all, so does one of
the two neighbours of the number on that grid.
-/
import TemplateGate.Decimal.Double

namespace TemplateGate.Decimal

/-- `coefficient * 10 ^ exponent`. -/
structure Numeral where
  coefficient : Nat
  exponent : Int
  deriving DecidableEq, Repr

namespace Numeral

/-- The decimal digits of the coefficient. -/
def digits (n : Numeral) : List Char := Nat.toDigits 10 n.coefficient

/-- The exponent of the leading digit. -/
def leading (n : Numeral) : Int := (n.digits.length : Int) - 1 + n.exponent

/-- Moves trailing zeros of the coefficient into the exponent. -/
def stripped : Nat → Numeral → Numeral
  | 0, n => n
  | fuel + 1, n =>
      if n.coefficient ≠ 0 ∧ n.coefficient % 10 = 0 then
        stripped fuel ⟨n.coefficient / 10, n.exponent + 1⟩
      else n

end Numeral

/-- `10 ^ k` for a positive power, 1 otherwise. -/
def tenPower (k : Int) : Nat := tenTo k.toNat

namespace Double

/-- The lower end of the interval of reals that round to the number, in
quarters of a unit.  Below a power of two the doubles lie twice as close. -/
def lowerEnd (d : Double) : Nat :=
  4 * d.magnitude -
    (if d.significand = leastFull ∧ d.scale ≠ 0 then twoTo d.scale else 2 * twoTo d.scale)

/-- The upper end of that interval, in quarters of a unit. -/
def upperEnd (d : Double) : Nat := 4 * d.magnitude + 2 * twoTo d.scale

/-- Whether a numeral lies in the interval; the ends belong to it when the
significand is even. -/
def covers (d : Double) (n : Numeral) : Bool :=
  let point := 4 * unit * n.coefficient * tenPower n.exponent
  let low := d.lowerEnd * tenPower (-n.exponent)
  let high := d.upperEnd * tenPower (-n.exponent)
  if d.significand % 2 = 0 then low ≤ point && point ≤ high
  else low < point && point < high

/-- The exponent of the leading decimal digit of a number other than zero.
The smallest double exceeds 10⁻⁴⁰⁰, so the shifted quotient has digits. -/
def leadingExponent (d : Double) : Int :=
  ((Nat.toDigits 10 (d.magnitude * tenTo 400 / unit)).length : Int) - 401

/-- The shortest numeral with `count` digits that reads back, if there is one. -/
def onGrid? (d : Double) (count : Nat) : Option Numeral :=
  let exponent := d.leadingExponent - count + 1
  let num := d.magnitude * tenPower (-exponent)
  let den := unit * tenPower exponent
  let below : Numeral := ⟨num / den, exponent⟩
  let above : Numeral := ⟨num / den + 1, exponent⟩
  let nearest : Numeral := ⟨roundHalfEven num den, exponent⟩
  match d.covers below, d.covers above with
  | true, true => some nearest
  | true, false => some below
  | false, true => some above
  | false, false => none

/-- Tries the grids with `count`, `count + 1`, … digits. -/
def fromGrid (d : Double) : Nat → Nat → Numeral
  | 0, count => (d.onGrid? count).getD ⟨d.magnitude, 0⟩
  | fuel + 1, count => (d.onGrid? count).getD (fromGrid d fuel (count + 1))

/-- The numeral with the fewest digits that reads back as the number. -/
def shortest (d : Double) : Numeral :=
  if d.isZero then ⟨0, 0⟩ else (fromGrid d 16 1).stripped 20

end Double

end TemplateGate.Decimal
