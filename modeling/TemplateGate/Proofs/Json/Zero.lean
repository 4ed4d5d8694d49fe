/-
# `Proofs.Json.Zero` — numerals that denote zero

Zero is written in many ways: with a sign, with places, with an exponent of any
size.  And there are numerals of other numbers that denote it, because the
number is too small for the format.  Both are read by the same steps, which
round more than once, so what they denote is not said by one rounding; but each
step is one (`exists_scale_of_ofQuotient?`), and it leaves zero alone and takes
away what is small (`magnitude_eq_zero_of_lt`).

A numeral with a large negative exponent is divided by 10³⁰⁸ first.  That
leaves less than 10³⁶ units of an integer of 64 bits (`magnitude_lt_of_step`),
and of these nothing is left in the next division, if it is by 10³⁷ or more
(`magnitude_eq_zero_of_div_power`).
-/
import TemplateGate.Proofs.Json.Path
import TemplateGate.Json.Lexer

namespace TemplateGate.Decimal

open Json

/-! ## One rounding -/

theorem twoTo_succ (k : Nat) : twoTo (k + 1) = 2 * twoTo k := by
  show 2 ^ (k + 1) = 2 * 2 ^ k
  rw [Nat.pow_succ, Nat.mul_comm]

theorem roundHalfEven_bounds (a b : Nat) : a / b ≤ roundHalfEven a b ∧
    roundHalfEven a b ≤ a / b + 1 := by
  unfold roundHalfEven
  dsimp only
  split
  · omega
  · split
    · omega
    · split <;> omega

theorem roundHalfEven_of_lt {a b : Nat} (h : 2 * a < b) : roundHalfEven a b = 0 := by
  have hlt : a < b := by omega
  unfold roundHalfEven
  dsimp only
  rw [Nat.mod_eq_of_lt hlt, if_pos h, Nat.div_eq_of_lt hlt]

namespace Double

theorem magnitude_of_ofParts? {negative : Bool} {significand scale : Nat} {d : Double}
    (h : ofParts? negative significand scale = some d) :
    d.magnitude = significand * twoTo scale := by
  unfold ofParts? at h
  split at h
  · cases h
    rfl
  · split at h
    · rename_i hcarry
      cases h
      show leastFull * twoTo (scale + 1) = significand * twoTo scale
      rw [hcarry.1, twoTo_succ, Nat.mul_left_comm, Nat.mul_assoc]
    · cases h

variable {negative : Bool} {num den : Nat} {d : Double}

/-- A quotient is rounded to a multiple of a power of two, and unless that is
the unit of the format, it is at least twice that power. -/
theorem exists_scale_of_ofQuotient? (h : ofQuotient? negative num den = some d) :
    ∃ scale, (den * twoTo scale = den ∨ 2 * (den * twoTo scale) ≤ num * unit) ∧
      d.magnitude = roundHalfEven (num * unit) (den * twoTo scale) * twoTo scale := by
  refine ⟨(num * unit / den).log2 + 1 - 53, ?_, magnitude_of_ofParts? h⟩
  rcases Nat.eq_zero_or_pos ((num * unit / den).log2 + 1 - 53) with hzero | hpos
  · rw [hzero]
    exact .inl (Nat.mul_one den)
  · have hquotient : num * unit / den ≠ 0 := by
      intro hq
      rw [hq, Nat.log2_zero] at hpos
      cases hpos
    have hpower : twoTo ((num * unit / den).log2 + 1 - 53 + 1) ≤ num * unit / den :=
      Nat.le_trans (Nat.pow_le_pow_right (by decide) (by omega)) (Nat.log2_self_le hquotient)
    have hle := Nat.le_trans (Nat.mul_le_mul_left den hpower) (Nat.mul_div_le _ _)
    rw [twoTo_succ, Nat.mul_left_comm] at hle
    exact .inr hle

theorem magnitude_mul_le (h : ofQuotient? negative num den = some d) :
    d.magnitude * den ≤ 2 * (num * unit) + den := by
  obtain ⟨scale, hscale, hmagnitude⟩ := exists_scale_of_ofQuotient? h
  have hround := (roundHalfEven_bounds (num * unit) (den * twoTo scale)).2
  have hdiv := Nat.div_mul_le_self (num * unit) (den * twoTo scale)
  have hmul : d.magnitude * den ≤ num * unit + den * twoTo scale := by
    calc d.magnitude * den
        = roundHalfEven (num * unit) (den * twoTo scale) * (den * twoTo scale) := by
          rw [hmagnitude, Nat.mul_assoc, Nat.mul_comm (twoTo scale)]
      _ ≤ (num * unit / (den * twoTo scale) + 1) * (den * twoTo scale) :=
          Nat.mul_le_mul_right _ hround
      _ ≤ num * unit + den * twoTo scale := by
          rw [Nat.add_mul, Nat.one_mul]
          exact Nat.add_le_add_right hdiv _
  omega

/-- A quotient is rounded down to no less than half of it, but for a unit. -/
theorem mul_unit_le (hden : 0 < den) (h : ofQuotient? negative num den = some d) :
    num * unit ≤ 2 * (d.magnitude * den) + den := by
  obtain ⟨scale, hscale, hmagnitude⟩ := exists_scale_of_ofQuotient? h
  have hround := (roundHalfEven_bounds (num * unit) (den * twoTo scale)).1
  have hpos : 0 < den * twoTo scale := Nat.mul_pos hden (twoTo_pos scale)
  have hmul : num * unit ≤ d.magnitude * den + den * twoTo scale := by
    calc num * unit
        ≤ (num * unit / (den * twoTo scale) + 1) * (den * twoTo scale) :=
          Nat.le_of_lt (Nat.lt_mul_of_div_lt (Nat.lt_succ_self _) hpos)
      _ ≤ (roundHalfEven (num * unit) (den * twoTo scale) + 1) * (den * twoTo scale) :=
          Nat.mul_le_mul_right _ (Nat.succ_le_succ hround)
      _ = d.magnitude * den + den * twoTo scale := by
          rw [Nat.add_mul, Nat.one_mul, hmagnitude, Nat.mul_assoc, Nat.mul_comm (twoTo scale)]
  omega

theorem magnitude_eq_zero_of_lt (h : ofQuotient? negative num den = some d)
    (hlt : 2 * (num * unit) < den) : d.magnitude = 0 := by
  obtain ⟨scale, -, hmagnitude⟩ := exists_scale_of_ofQuotient? h
  have hle : den ≤ den * twoTo scale := Nat.le_mul_of_pos_right den (twoTo_pos scale)
  rw [hmagnitude, roundHalfEven_of_lt (Nat.lt_of_lt_of_le hlt hle), Nat.zero_mul]

/-! ## Scaling -/

theorem magnitude_of_ofQuotient?_zero (h : ofQuotient? negative 0 den = some d) :
    d.magnitude = 0 := by
  obtain ⟨scale, -, hmagnitude⟩ := exists_scale_of_ofQuotient? h
  have hround : ∀ b, roundHalfEven 0 b = 0 := fun b => by simp [roundHalfEven]
  rw [hmagnitude, Nat.zero_mul, hround, Nat.zero_mul]

theorem magnitude_eq_zero_of_div? {a b : Double} (ha : a.magnitude = 0)
    (h : a.div? b = some d) : d.magnitude = 0 := by
  rw [div?, ha] at h
  exact magnitude_of_ofQuotient?_zero h

theorem shrinkSteps_of_magnitude (hd : d.magnitude = 0) (steps : Nat) :
    shrinkSteps steps d = some d := by
  cases steps with
  | zero => rfl
  | succ steps => exact if_pos (isZero_iff.mpr hd)

theorem shrink_eq_some_iff {k : Nat} {e : Double} : d.shrink k = some e ↔
    ∃ smaller power, shrinkSteps ((k - 1) / stepPower) d = some smaller ∧
      powerOfTen? (k - (k - 1) / stepPower * stepPower) = some power ∧
      smaller.div? power = some e := by
  have hshrink : d.shrink k = (shrinkSteps ((k - 1) / stepPower) d).bind fun smaller =>
      (powerOfTen? (k - (k - 1) / stepPower * stepPower)).bind smaller.div? := rfl
  rw [hshrink, Option.bind_eq_some_iff]
  simp only [Option.bind_eq_some_iff]
  constructor
  · rintro ⟨smaller, hsmaller, power, hpower, hdiv⟩
    exact ⟨smaller, power, hsmaller, hpower, hdiv⟩
  · rintro ⟨smaller, power, hsmaller, hpower, hdiv⟩
    exact ⟨smaller, hsmaller, power, hpower, hdiv⟩

theorem magnitude_eq_zero_of_shift {exponent : Int} {e : Double} (hd : d.magnitude = 0)
    (h : d.shift exponent = some e) : e.magnitude = 0 := by
  cases exponent with
  | ofNat k =>
      have hgrow : d.grow k = some d := if_pos (isZero_iff.mpr hd)
      rw [shift, hgrow, Option.some.injEq] at h
      rw [← h, hd]
  | negSucc k =>
      obtain ⟨smaller, power, hsmaller, -, hdiv⟩ := shrink_eq_some_iff.mp h
      rw [shrinkSteps_of_magnitude hd, Option.some.injEq] at hsmaller
      exact magnitude_eq_zero_of_div? (hsmaller ▸ hd) hdiv

theorem ofDecimal?_eq_some_iff {significand : Nat} {exponent : Int} :
    ofDecimal? negative significand exponent = some d ↔
      ∃ m, ofQuotient? negative significand 1 = some m ∧ m.shift exponent = some d := by
  rw [ofDecimal?, Option.bind_eq_some_iff]

/-! ## Underflow -/

/-- The double nearest to a power of ten is at least half of it, but for a unit. -/
theorem tenTo_mul_unit_le {k : Nat} {power : Double} (h : powerOfTen? k = some power) :
    tenTo k * unit ≤ 2 * power.magnitude + 1 := by
  have hle := mul_unit_le Nat.one_pos h
  rwa [Nat.mul_one] at hle

/-- One division by 10³⁰⁸ takes an integer of 64 bits below 10³⁶ units. -/
theorem magnitude_lt_of_step {m e power : Double} (hm : m.magnitude ≤ 2 * wordLimit * unit)
    (hpower : powerOfTen? stepPower = some power) (h : m.div? power = some e) :
    e.magnitude < tenTo 36 := by
  refine Nat.lt_of_not_le fun hge => ?_
  have hlower := tenTo_mul_unit_le hpower
  have hupper := magnitude_mul_le h
  have hquotient : tenTo 36 * power.magnitude ≤ e.magnitude * power.magnitude :=
    Nat.mul_le_mul_right _ hge
  have hmul : m.magnitude * unit ≤ 2 * wordLimit * unit * unit := Nat.mul_le_mul_right _ hm
  have hpred : tenTo 36 * power.magnitude =
      (tenTo 36 - 1) * power.magnitude + power.magnitude := by
    rw [← Nat.succ_mul]
    rfl
  have hscaled : (tenTo 36 - 1) * (tenTo stepPower * unit) ≤
      (tenTo 36 - 1) * (2 * power.magnitude + 1) := Nat.mul_le_mul_left _ hlower
  rw [Nat.mul_add, Nat.mul_one, Nat.mul_left_comm (tenTo 36 - 1) 2] at hscaled
  have hclosed : 4 * (2 * wordLimit * unit * unit) + (tenTo 36 - 1) <
      (tenTo 36 - 1) * (tenTo stepPower * unit) := by decide +kernel
  omega

/-- What is below 10³⁶ units vanishes in a division by 10³⁷ or more. -/
theorem magnitude_eq_zero_of_div_power {e power : Double} {k : Nat}
    (he : e.magnitude < tenTo 36) (hk : 37 ≤ k) (hpower : powerOfTen? k = some power)
    (h : e.div? power = some d) : d.magnitude = 0 := by
  refine magnitude_eq_zero_of_lt h ?_
  have hlower := tenTo_mul_unit_le hpower
  have hunit : 0 < unit := twoTo_pos 1074
  have hten : 10 * tenTo 36 ≤ tenTo k := by
    calc 10 * tenTo 36 = tenTo 37 := by decide +kernel
      _ ≤ tenTo k := Nat.pow_le_pow_right (by decide) hk
  have hscaled : 10 * (e.magnitude + 1) * unit ≤ tenTo k * unit :=
    Nat.mul_le_mul_right _ (Nat.le_trans (Nat.mul_le_mul_left 10 he) hten)
  rw [Nat.mul_assoc, Nat.add_mul, Nat.one_mul] at hscaled
  omega

/-- A step of a shrinking is one division by 10³⁰⁸, unless there is nothing to divide. -/
theorem exists_of_shrinkSteps {steps : Nat} {e smaller : Double} (he : e.magnitude ≠ 0)
    (h : shrinkSteps (steps + 1) e = some smaller) :
    ∃ power next, powerOfTen? stepPower = some power ∧ e.div? power = some next ∧
      shrinkSteps steps next = some smaller := by
  rw [shrinkSteps, if_neg (mt isZero_iff.mp he)] at h
  obtain ⟨next, hnext, hrest⟩ := Option.bind_eq_some_iff.mp h
  obtain ⟨power, hpower, hdiv⟩ := Option.bind_eq_some_iff.mp hnext
  exact ⟨power, next, hpower, hdiv, hrest⟩

theorem magnitude_eq_zero_of_shrinkSteps {steps : Nat} {e smaller : Double}
    (he : e.magnitude < tenTo 36) (h : shrinkSteps (steps + 1) e = some smaller) :
    smaller.magnitude = 0 := by
  by_cases hzero : e.magnitude = 0
  · rw [shrinkSteps_of_magnitude hzero, Option.some.injEq] at h
    exact h ▸ hzero
  · obtain ⟨power, next, hpower, hdiv, hrest⟩ := exists_of_shrinkSteps hzero h
    have hnext := magnitude_eq_zero_of_div_power he (by decide) hpower hdiv
    rw [shrinkSteps_of_magnitude hnext, Option.some.injEq] at hrest
    exact hrest ▸ hnext

/-- A number is gone that is divided by 10³⁴⁵ or more. -/
theorem magnitude_eq_zero_of_shrink {m : Double} {k : Nat}
    (hm : m.magnitude ≤ 2 * wordLimit * unit) (hk : 345 ≤ k) (h : m.shrink k = some d) :
    d.magnitude = 0 := by
  obtain ⟨smaller, power, hsmaller, hpower, hdiv⟩ := shrink_eq_some_iff.mp h
  have hpos : 0 < (k - 1) / stepPower :=
    Nat.div_pos (by unfold stepPower; omega) (by decide)
  obtain ⟨steps, hsteps⟩ := Nat.exists_eq_succ_of_ne_zero (Nat.ne_of_gt hpos)
  rw [hsteps] at hsmaller hpower
  by_cases hzero : m.magnitude = 0
  · rw [shrinkSteps_of_magnitude hzero, Option.some.injEq] at hsmaller
    exact magnitude_eq_zero_of_div? (hsmaller ▸ hzero) hdiv
  · obtain ⟨first, e, hfirst, he, hrest⟩ := exists_of_shrinkSteps hzero hsmaller
    have hlt := magnitude_lt_of_step hm hfirst he
    cases steps with
    | zero =>
        -- What is left of the exponent is still more than 36.
        cases hrest
        refine magnitude_eq_zero_of_div_power hlt ?_ hpower hdiv
        unfold stepPower
        omega
    | succ steps =>
        exact magnitude_eq_zero_of_div? (magnitude_eq_zero_of_shrinkSteps hlt hrest) hdiv

end Double

end TemplateGate.Decimal

namespace TemplateGate.Json

open Decimal

/-! ## Numerals -/

theorem gather_zeros {digits : List Char} (h : ∀ c ∈ digits, c = '0') :
    gather 0 digits = (0, []) := by
  induction digits with
  | nil => rfl
  | cons c digits ih =>
      obtain rfl := h c List.mem_cons_self
      exact ih fun c hc => h c (List.mem_cons_of_mem _ hc)

/-- A numeral stands for zero, or for less than 10⁻³⁴⁵. -/
inductive Negligible (whole : List Char) (places : Option (List Char)) : Option Int → Prop
  | zeros {exponent : Option Int} : (∀ c ∈ whole, c = '0') → (∀ c ∈ places.getD [], c = '0') →
      Negligible whole places exponent
  | small {exponent : Int} : whole.length + exponent ≤ -345 →
      Negligible whole places (some exponent)

variable {negative : Bool} {whole : List Char} {places : Option (List Char)} {n : Number}

/-- A numeral without a digit other than `0` denotes a zero, with any sign,
places and exponent. -/
theorem isZero_of_zeros {exponent : Option Int} (hwhole : ∀ c ∈ whole, c = '0')
    (hplaces : ∀ c ∈ places.getD [], c = '0')
    (h : numberOf negative whole places exponent = some n) : n.IsZero := by
  have hdouble : ∀ {exponent : Int},
      (Double.ofDecimal? negative 0 exponent).map .double = some n → n.IsZero := by
    intro exponent h
    obtain ⟨d, hd, rfl⟩ := Option.map_eq_some_iff.mp h
    obtain ⟨m, hm, hd⟩ := Double.ofDecimal?_eq_some_iff.mp hd
    exact Double.magnitude_eq_zero_of_shift (Double.magnitude_of_ofQuotient?_zero hm) hd
  simp only [numberOf, gather_zeros hwhole, gather_zeros hplaces] at h
  split at h
  · -- An integer zero, unless there is a sign.
    cases negative with
    | true => exact hdouble h
    | false =>
        cases h
        rfl
  · exact hdouble h

theorem gather_bounds (digits : List Char) : ∀ significand : Nat, significand < wordLimit →
    (gather significand digits).1 < wordLimit ∧
      (gather significand digits).2.length ≤ digits.length := by
  induction digits with
  | nil => exact fun _ h => ⟨h, Nat.le_refl _⟩
  | cons c digits ih =>
      intro significand h
      rw [gather]
      split
      · rename_i hnext
        obtain ⟨hlt, hle⟩ := ih _ hnext
        exact ⟨hlt, Nat.le_succ_of_le hle⟩
      · exact ⟨h, Nat.le_refl _⟩

theorem numberOf_exponent (negative : Bool) (whole : List Char) (places : Option (List Char))
    (exponent : Int) : numberOf negative whole places (some exponent) =
      (Double.ofDecimal? negative (gather (gather 0 whole).1 (places.getD [])).1
        ((gather 0 whole).2.length - ((places.getD []).length -
          (gather (gather 0 whole).1 (places.getD [])).2.length) + exponent)).map .double := by
  cases places <;> rfl

/-- A numeral that stands for less than 10⁻³⁴⁵ denotes a zero. -/
theorem isZero_of_small {exponent : Int} (hsmall : whole.length + exponent ≤ -345)
    (h : numberOf negative whole places (some exponent) = some n) : n.IsZero := by
  rw [numberOf_exponent] at h
  obtain ⟨d, hd, rfl⟩ := Option.map_eq_some_iff.mp h
  obtain ⟨m, hm, hshift⟩ := Double.ofDecimal?_eq_some_iff.mp hd
  obtain ⟨hword, hexcess⟩ := gather_bounds whole 0 (by decide)
  obtain ⟨hword', hdropped⟩ := gather_bounds (places.getD []) _ hword
  generalize hpower : ((gather 0 whole).2.length - ((places.getD []).length -
    (gather (gather 0 whole).1 (places.getD [])).2.length) + exponent : Int) = power at hshift
  cases power with
  | ofNat k =>
      rw [Int.ofNat_eq_natCast] at hpower
      omega
  | negSucc k =>
      have hmagnitude : m.magnitude ≤ 2 * wordLimit * Double.unit := by
        have hle := Double.magnitude_mul_le hm
        have hunit : 0 < Double.unit := twoTo_pos 1074
        have hscaled := Nat.mul_le_mul_right Double.unit hword'
        rw [Nat.succ_mul] at hscaled
        rw [Nat.mul_assoc]
        omega
      exact Double.magnitude_eq_zero_of_shrink hmagnitude (by omega) hshift

theorem isZero_of_negligible {exponent : Option Int}
    (hnegligible : Negligible whole places exponent)
    (h : numberOf negative whole places exponent = some n) : n.IsZero := by
  cases hnegligible with
  | zeros hwhole hplaces => exact isZero_of_zeros hwhole hplaces h
  | small hsmall => exact isZero_of_small hsmall h

end TemplateGate.Json
