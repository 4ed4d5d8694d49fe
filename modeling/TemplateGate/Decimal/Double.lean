/-
# `Decimal.Double` — the finite numbers of the binary64 format, exactly

A number of a JSON text that is no 64-bit integer is held in binary64.
Nothing in this library computes with such a number: it is read, compared
with zero and with its like, and written again.  So the format is kept as
exact data, a sign and a natural number of units of 2⁻¹⁰⁷⁴, and every
rounding is one integer division (`roundHalfEven`), the same for reading
a numeral and for scaling it.

`ofDecimal?` is the rule by which numerals are read.  The digits are
gathered in an integer of 64 bits (that is the lexer's part), rounded to
binary64, and then multiplied or divided by the double nearest to the
power of ten, which rounds a second time.  For up to fifteen digits and
powers up to 10²² both operands are exact and the result is the double
nearest to the numeral; beyond that it may be one of its neighbours.
-/

namespace TemplateGate.Decimal

/-- `2 ^ k`. -/
def twoTo (k : Nat) : Nat := Nat.pow 2 k

/-- `10 ^ k`. -/
def tenTo (k : Nat) : Nat := Nat.pow 10 k

theorem twoTo_pos (k : Nat) : 0 < twoTo k := Nat.two_pow_pos k

/-- The least significand of 53 bits, 2⁵². -/
def leastFull : Nat := 4503599627370496

/-- The integer nearest to `a / b`; halfway it is the even neighbour. -/
def roundHalfEven (a b : Nat) : Nat :=
  let q := a / b
  let r := a % b
  if 2 * r < b then q
  else if b < 2 * r then q + 1
  else if q % 2 = 0 then q else q + 1

/-- A finite binary64 number: `significand * 2 ^ scale` units of 2⁻¹⁰⁷⁴.
The last field makes the representation unique: fewer than 53 bits of
significand only where the scale is 0. -/
structure Double where
  negative : Bool
  significand : Nat
  scale : Nat
  fits : significand < 2 * leastFull ∧ scale ≤ 2045 ∧ (leastFull ≤ significand ∨ scale = 0)
  deriving DecidableEq, Repr

namespace Double

/-- How many units of 2⁻¹⁰⁷⁴ make 1. -/
def unit : Nat := twoTo 1074

/-- The magnitude, in units of 2⁻¹⁰⁷⁴. -/
def magnitude (d : Double) : Nat := d.significand * twoTo d.scale

/-- Zero of a given sign. -/
def zero (negative : Bool) : Double := ⟨negative, 0, 0, by decide⟩

/-- Whether the number is zero, of either sign. -/
def isZero (d : Double) : Bool := d.significand == 0

/-- Equality of numbers: the two zeros are equal, and nothing else is
equal to something written differently. -/
def same (a b : Double) : Bool := (a.isZero && b.isZero) || a == b

/-- The number with the given parts; `none` beyond the range of the format.
A significand that rounding has carried to 2⁵³ is renormalised. -/
def ofParts? (negative : Bool) (significand scale : Nat) : Option Double :=
  if h : significand < 2 * leastFull ∧ scale ≤ 2045 ∧ (leastFull ≤ significand ∨ scale = 0) then
    some ⟨negative, significand, scale, h⟩
  else if h : significand = 2 * leastFull ∧ scale + 1 ≤ 2045 then
    some ⟨negative, leastFull, scale + 1, by unfold leastFull; omega⟩
  else none

/-- The double nearest to `num / den`, ties to even; `none` on overflow. -/
def ofQuotient? (negative : Bool) (num den : Nat) : Option Double :=
  let units := num * unit
  let scale := (units / den).log2 + 1 - 53
  ofParts? negative (roundHalfEven units (den * twoTo scale)) scale

/-- The double nearest to a product. -/
def mul? (a b : Double) : Option Double :=
  ofQuotient? (a.negative != b.negative) (a.magnitude * b.magnitude) (unit * unit)

/-- The double nearest to a quotient. -/
def div? (a b : Double) : Option Double :=
  ofQuotient? (a.negative != b.negative) a.magnitude b.magnitude

/-- The double nearest to a power of ten. -/
def powerOfTen? (k : Nat) : Option Double := ofQuotient? false (tenTo k) 1

/-- The largest power of ten that one scaling step uses. -/
def stepPower : Nat := 308

/-- Divides by 10 ^ 308 a number of times, until nothing is left. -/
def shrinkSteps : Nat → Double → Option Double
  | 0, d => some d
  | steps + 1, d =>
      if d.isZero then some d
      else ((powerOfTen? stepPower).bind d.div?).bind (shrinkSteps steps)

/-- Divides by 10 ^ k, in steps of at most 10 ^ 308. -/
def shrink (d : Double) (k : Nat) : Option Double :=
  let steps := (k - 1) / stepPower
  (shrinkSteps steps d).bind fun smaller =>
    (powerOfTen? (k - steps * stepPower)).bind smaller.div?

/-- Multiplies by 10 ^ k; there is no result beyond the range of the format. -/
def grow (d : Double) (k : Nat) : Option Double :=
  if d.isZero then some d
  else if k ≤ stepPower then (powerOfTen? k).bind d.mul?
  else none

/-- Multiplies by a power of ten; there is no result beyond the range of the format. -/
def shift (d : Double) : (exponent : Int) → Option Double
  | .ofNat k => d.grow k
  | .negSucc k => d.shrink (k + 1)

/-- The number read from the numeral `significand * 10 ^ exponent`; `none`
if its magnitude is beyond the range of the format. -/
def ofDecimal? (negative : Bool) (significand : Nat) (exponent : Int) : Option Double :=
  (ofQuotient? negative significand 1).bind fun d => d.shift exponent

/-- A double is zero exactly when its magnitude is. -/
theorem isZero_iff {d : Double} : d.isZero = true ↔ d.magnitude = 0 := by
  rw [isZero, magnitude, beq_iff_eq, Nat.mul_eq_zero]
  exact ⟨.inl, fun h => h.resolve_right (Nat.ne_of_gt (twoTo_pos d.scale))⟩

end Double

end TemplateGate.Decimal
