/-
# `Proofs.Timestamp` — times are read back as they are written

Every part of a timestamp is written with a fixed number of digits, except
for the fraction, whose zeros at the end are left out.  Reading fills them
in again up to the ninth digit, so nothing is lost, and `ofText?_toText`
holds of every point in time on every clock.
-/
import Mathlib.Algebra.Group.Nat.Defs
import Mathlib.Data.List.TakeWhile
import TemplateGate.Proofs.Text.Scan
import TemplateGate.Timestamp

namespace TemplateGate.Timestamp

open Text

/-! ## Digits -/

theorem digitValue?_digitChar {d : Nat} (h : d < 10) : digitValue? d.digitChar = some d := by
  have hall : ∀ d < 10, digitValue? d.digitChar = some d := by decide
  exact hall d h

theorem isDigit_digitChar {d : Nat} (h : d < 10) : d.digitChar.isDigit = true := by
  have hall : ∀ d < 10, d.digitChar.isDigit = true := by decide
  exact hall d h

/-- Digits are read one by one, the last one behind the others. -/
theorem digits?_succ (width : Nat) : ∀ (acc : Nat) (cs : List Char),
    digits? (width + 1) acc cs =
      (digits? width acc cs).bind fun (acc, rest) => digits? 1 acc rest := by
  induction width with
  | zero => exact fun _ _ => rfl
  | succ width ih =>
      intro acc cs
      cases cs with
      | nil => rfl
      | cons c cs =>
          rw [digits?, digits?]
          cases digitValue? c with
          | none => rfl
          | some d => exact ih (acc * 10 + d) cs

/-- The digits of a number are read as the number, as far as they show it. -/
theorem digits?_padded (width acc : Nat) : ∀ (n : Nat) (rest : List Char),
    digits? width acc (padded width n ++ rest) =
      some (acc * 10 ^ width + n % 10 ^ width, rest) := by
  induction width with
  | zero =>
      intro n rest
      simp [digits?, padded, Nat.mod_one]
  | succ width ih =>
      intro n rest
      have hlast : n % 10 < 10 := Nat.mod_lt n (by decide)
      have hvalue : (acc * 10 ^ width + n / 10 % 10 ^ width) * 10 + n % 10 =
          acc * 10 ^ (width + 1) + n % 10 ^ (width + 1) := by
        rw [Nat.pow_succ, Nat.mul_comm (10 ^ width) 10, Nat.mod_mul, Nat.mul_left_comm]
        omega
      rw [digits?_succ, padded, List.append_assoc, ih (n / 10)]
      show digits? 1 _ (_ :: rest) = _
      rw [digits?, digitValue?_digitChar hlast, ← hvalue]
      rfl

theorem digits?_padded_of_lt {width n : Nat} (h : n < 10 ^ width) (rest : List Char) :
    digits? width 0 (padded width n ++ rest) = some (n, rest) := by
  rw [digits?_padded, Nat.zero_mul, Nat.zero_add, Nat.mod_eq_of_lt h]

theorem length_padded (width : Nat) : ∀ n : Nat, (padded width n).length = width := by
  induction width with
  | zero => exact fun _ => rfl
  | succ width ih =>
      intro n
      rw [padded, List.length_append, ih, List.length_singleton]

theorem isDigit_of_mem_padded {c : Char} {width : Nat} : ∀ {n : Nat}, c ∈ padded width n →
    c.isDigit = true := by
  induction width with
  | zero => exact fun h => absurd h List.not_mem_nil
  | succ width ih =>
      intro n h
      rw [padded] at h
      rcases List.mem_append.mp h with h | h
      · exact ih h
      · rw [List.mem_singleton.mp h]
        exact isDigit_digitChar (Nat.mod_lt n (by decide))

theorem readNumeral_padded {width : Nat} : ∀ {n : Nat}, n < 10 ^ width →
    readNumeral (padded width n) = n := by
  induction width with
  | zero =>
      intro n h
      rw [Nat.pow_zero, Nat.lt_one_iff] at h
      rw [h]
      rfl
  | succ width ih =>
      intro n h
      have hlt : n / 10 < 10 ^ width := Nat.div_lt_of_lt_mul (by rwa [Nat.pow_succ'] at h)
      have hread := ih hlt
      rw [readNumeral] at hread ⊢
      rw [padded, Nat.ofDigitChars_append, hread,
        Nat.ofDigitChars_cons_digitChar_of_lt_ten (Nat.mod_lt n (by decide)), Nat.ofDigitChars_nil]
      omega

/-! ## Fractions -/

/-- The digits of a fraction are its nine digits without some zeros. -/
theorem exists_padded_eq (nanosecond : Nat) : ∃ zeros,
    padded 9 nanosecond = fractionDigits nanosecond ++ List.replicate zeros '0' := by
  let dropped := (padded 9 nanosecond).reverse.takeWhile (· == '0')
  have hsplit : dropped ++ (fractionDigits nanosecond).reverse = (padded 9 nanosecond).reverse := by
    rw [fractionDigits, List.reverse_reverse]
    exact List.takeWhile_append_dropWhile
  have hzero : ∀ c ∈ dropped, c = '0' := by
    intro c hc
    have hpass := List.mem_takeWhile_imp hc
    exact beq_iff_eq.mp hpass
  have hzeros : dropped = List.replicate dropped.length '0' := List.eq_replicate_of_mem hzero
  refine ⟨dropped.length, ?_⟩
  rw [← List.reverse_reverse (padded 9 nanosecond), ← hsplit, List.reverse_append,
    List.reverse_reverse]
  nth_rewrite 1 [hzeros]
  rw [List.reverse_replicate]

theorem isDigit_of_mem_fractionDigits {nanosecond : Nat} {c : Char}
    (h : c ∈ fractionDigits nanosecond) : c.isDigit = true := by
  obtain ⟨zeros, heq⟩ := exists_padded_eq nanosecond
  exact isDigit_of_mem_padded (heq ▸ List.mem_append_left _ h)

theorem nanoseconds_fractionDigits {nanosecond : Nat} (h : nanosecond < 1000000000) :
    nanoseconds (fractionDigits nanosecond) = nanosecond := by
  obtain ⟨zeros, heq⟩ := exists_padded_eq nanosecond
  have hlength : (fractionDigits nanosecond).length + zeros = 9 := by
    rw [← length_padded 9 nanosecond, heq, List.length_append, List.length_replicate]
  have hfill :
      (fractionDigits nanosecond ++ List.replicate 9 '0').take 9 = padded 9 nanosecond := by
    have hzeros : min (9 - (fractionDigits nanosecond).length) 9 = zeros := by omega
    rw [List.take_append, List.take_of_length_le (by omega), List.take_replicate, hzeros, heq]
  rw [nanoseconds, hfill]
  exact readNumeral_padded h

theorem fractionDigits_ne_nil {nanosecond : Nat} (h : nanosecond < 1000000000)
    (hne : nanosecond ≠ 0) : fractionDigits nanosecond ≠ [] := by
  intro hnil
  have hread := nanoseconds_fractionDigits h
  rw [hnil, show nanoseconds [] = 0 by decide] at hread
  exact hne hread.symm

theorem fraction?_printFraction {nanosecond : Nat} (h : nanosecond < 1000000000)
    {rest : List Char} (hdigit : Stops Char.isDigit rest) (hpoint : rest.head? ≠ some '.') :
    fraction? (printFraction nanosecond ++ rest) = some (nanosecond, rest) := by
  rw [printFraction]
  split
  case isTrue hzero =>
      rw [hzero, List.nil_append, fraction?]
      rintro rest' rfl
      exact hpoint rfl
  case isFalse hne =>
      have hall : ∀ c ∈ fractionDigits nanosecond, c.isDigit = true :=
        fun c hc => isDigit_of_mem_fractionDigits hc
      have hspan := span_append hall hdigit
      rw [List.span_eq_takeWhile_dropWhile, Prod.mk.injEq] at hspan
      have hempty : (fractionDigits nanosecond).isEmpty = false := by
        rw [Bool.eq_false_iff]
        exact fun hnil => fractionDigits_ne_nil h hne (List.isEmpty_iff.mp hnil)
      rw [List.cons_append, fraction?]
      simp only [hspan.1, hspan.2, hempty, nanoseconds_fractionDigits h, Bool.false_eq_true,
        if_false]

/-! ## Offsets -/

theorem offset?_printOffset {offset : Int} (h : offset.natAbs < 24 * 60) :
    offset? (printOffset offset) = some offset := by
  rw [printOffset]
  split
  case isTrue hzero =>
      rw [hzero]
      rfl
  case isFalse hne =>
      have hhours : offset.natAbs / 60 < 10 ^ 2 := by omega
      have hminutes : offset.natAbs % 60 < 10 ^ 2 := by omega
      have hguard : offset.natAbs / 60 ≤ 23 ∧ offset.natAbs % 60 ≤ 59 := by omega
      have hsize : offset.natAbs / 60 * 60 + offset.natAbs % 60 = offset.natAbs := by omega
      have hread : ∀ {sign : Char} {result : Int}, sign = '+' ∨ sign = '-' →
          (if sign = '+' then some (offset.natAbs : Int)
            else if sign = '-' then some (-(offset.natAbs : Int)) else none) = some result →
          offset? (sign :: (padded 2 (offset.natAbs / 60) ++
            ':' :: padded 2 (offset.natAbs % 60))) = some result := by
        intro sign result hsign hresult
        have hrest := digits?_padded_of_lt hminutes []
        rw [List.append_nil] at hrest
        rw [← hsize] at hresult
        rcases hsign with rfl | rfl
        all_goals
          refine Option.bind_eq_some_iff.mpr ⟨_, digits?_padded_of_lt hhours _, ?_⟩
          refine Option.bind_eq_some_iff.mpr ⟨_, rfl, Option.bind_eq_some_iff.mpr ⟨_, hrest, ?_⟩⟩
          exact Option.bind_eq_some_iff.mpr ⟨(), if_pos ⟨rfl, hguard⟩, hresult⟩
      by_cases hneg : offset < 0
      · rw [if_pos hneg]
        refine hread (.inr rfl) ?_
        rw [if_neg (by decide), if_pos rfl, Int.ofNat_natAbs_of_nonpos (by omega), Int.neg_neg]
      · rw [if_neg hneg]
        refine hread (.inl rfl) ?_
        rw [if_pos rfl, Int.natAbs_of_nonneg (by omega)]

theorem stops_printOffset (offset : Int) :
    Stops Char.isDigit (printOffset offset) ∧ (printOffset offset).head? ≠ some '.' := by
  rw [printOffset]
  split
  · exact ⟨stops_cons.mpr rfl, by decide⟩
  · split
    · exact ⟨stops_cons.mpr rfl, by simp⟩
    · exact ⟨stops_cons.mpr rfl, by simp⟩

/-! ## Timestamps -/

theorem lt_of_dateExists {year month day : Nat} (h : dateExists year month day = true) :
    year < 10 ^ 4 ∧ month < 10 ^ 2 ∧ day < 10 ^ 2 := by
  have hdays : daysInMonth year month ≤ 31 := by
    rw [daysInMonth]
    split
    · split <;> decide
    · split <;> decide
  simp only [dateExists, Bool.and_eq_true, decide_eq_true_eq] at h
  omega

/-- Every point in time is read back from its text. -/
theorem ofText?_toText (t : Timestamp) : ofText? t.toText = some t := by
  obtain ⟨hdate, hhour, hminute, hsecond, hnanosecond, hoffset⟩ := t.valid
  obtain ⟨hyear, hmonth, hday⟩ := lt_of_dateExists hdate
  obtain ⟨hdigit, hpoint⟩ := stops_printOffset t.offset
  have hparts : ofWritten? t.year t.month t.day t.hour t.minute t.second t.nanosecond t.offset =
      some t := by
    rw [ofWritten?, if_neg (Nat.ne_of_lt hsecond), ofParts?, dif_pos t.valid]
  rw [ofText?, toText, String.toList_ofList, print, read?]
  refine Option.bind_eq_some_iff.mpr ⟨_, digits?_padded_of_lt hyear _, ?_⟩
  refine Option.bind_eq_some_iff.mpr ⟨_, rfl, Option.bind_eq_some_iff.mpr
    ⟨_, digits?_padded_of_lt hmonth _, ?_⟩⟩
  refine Option.bind_eq_some_iff.mpr ⟨_, rfl, Option.bind_eq_some_iff.mpr
    ⟨_, digits?_padded_of_lt hday _, ?_⟩⟩
  refine Option.bind_eq_some_iff.mpr ⟨_, rfl, Option.bind_eq_some_iff.mpr
    ⟨_, digits?_padded_of_lt (by omega) _, ?_⟩⟩
  refine Option.bind_eq_some_iff.mpr ⟨_, rfl, Option.bind_eq_some_iff.mpr
    ⟨_, digits?_padded_of_lt (by omega) _, ?_⟩⟩
  refine Option.bind_eq_some_iff.mpr ⟨_, rfl, Option.bind_eq_some_iff.mpr
    ⟨_, digits?_padded_of_lt (by omega) _, ?_⟩⟩
  refine Option.bind_eq_some_iff.mpr ⟨_, fraction?_printFraction hnanosecond hdigit hpoint, ?_⟩
  exact Option.bind_eq_some_iff.mpr ⟨_, offset?_printOffset hoffset, hparts⟩

end TemplateGate.Timestamp
