/-
# `Proofs.Text.Scan` — where a scan stops

The readers of the library cut texts by scanning them: they take
characters as long as a test holds, or they skip a given beginning.  The
lemmas here say where such a scan stops on a text put together from a part
that passes the test and a rest that does not start with such a character,
which is how the printers put texts together.
-/
import Mathlib.Data.List.TakeDrop
import TemplateGate.Text.Basic

namespace TemplateGate.Text

/-- A text goes on without a character that passes a test. -/
def Stops (p : Char → Bool) (rest : List Char) : Prop := ∀ c ∈ rest.head?, p c = false

theorem stops_nil {p : Char → Bool} : Stops p [] := fun _ h => absurd h (by simp)

theorem stops_cons {p : Char → Bool} {c : Char} {rest : List Char} :
    Stops p (c :: rest) ↔ p c = false := by
  simp [Stops]

theorem span_append {p : Char → Bool} {taken rest : List Char} (hall : ∀ c ∈ taken, p c = true)
    (hstop : Stops p rest) : (taken ++ rest).span p = (taken, rest) := by
  rw [List.span_eq_takeWhile_dropWhile, List.takeWhile_append_of_pos hall,
    List.dropWhile_append_of_pos hall]
  cases rest with
  | nil => simp
  | cons c rest => simp [stops_cons.mp hstop]

/-- A scan goes no further for a rest that it stops at. -/
theorem span_append_of_stops {p : Char → Bool} {rest : List Char} (hstop : Stops p rest)
    (cs : List Char) : (cs ++ rest).span p = ((cs.span p).1, (cs.span p).2 ++ rest) := by
  induction cs with
  | nil =>
      rw [List.nil_append, ← List.nil_append rest, span_append (by simp) hstop]
      rfl
  | cons c cs ih =>
      rw [List.span_eq_takeWhile_dropWhile, List.span_eq_takeWhile_dropWhile] at ih
      rw [List.span_eq_takeWhile_dropWhile, List.span_eq_takeWhile_dropWhile, List.cons_append]
      by_cases h : p c = true
      · rw [List.takeWhile_cons_of_pos h, List.takeWhile_cons_of_pos h,
          List.dropWhile_cons_of_pos h, List.dropWhile_cons_of_pos h]
        rw [Prod.mk.injEq] at ih ⊢
        exact ⟨congrArg (c :: ·) ih.1, ih.2⟩
      · rw [List.takeWhile_cons_of_neg h, List.takeWhile_cons_of_neg h,
          List.dropWhile_cons_of_neg h, List.dropWhile_cons_of_neg h]
        rfl

theorem suffix_of_span {p : Char → Bool} {cs taken rest : List Char}
    (h : cs.span p = (taken, rest)) : rest <:+ cs := by
  rw [List.span_eq_takeWhile_dropWhile] at h
  cases h
  exact List.dropWhile_suffix p

/-! ## Decimal digits -/

theorem isDigit_of_mem_toDigits {n : Nat} {c : Char} (h : c ∈ Nat.toDigits 10 n) :
    c.isDigit = true :=
  Nat.isDigit_of_mem_toDigits (by decide) (by decide) h

/-- Only a numeral of one digit starts with a zero. -/
theorem toDigits_ne_zero_cons (n : Nat) (d : Char) (ds : List Char) :
    Nat.toDigits 10 n ≠ '0' :: d :: ds := by
  induction n using Nat.strongRecOn generalizing d ds with
  | ind n ih =>
      intro h
      by_cases hlt : n < 10
      · rw [Nat.toDigits_of_lt_base hlt] at h
        simp at h
      · rw [Nat.toDigits_of_base_le (by decide) (Nat.le_of_not_lt hlt)] at h
        -- The digits before the last are those of `n / 10`, which is not zero.
        match hdigits : Nat.toDigits 10 (n / 10) with
        | [] => exact absurd hdigits Nat.toDigits_ne_nil
        | [c] =>
            rw [hdigits, List.singleton_append, List.cons.injEq] at h
            have hread := readNumeral_toDigits (n / 10)
            rw [hdigits, h.1, show readNumeral ['0'] = 0 by decide] at hread
            omega
        | c :: c' :: cs =>
            rw [hdigits, List.cons_append, List.cons.injEq] at h
            exact ih (n / 10) (by omega) c' cs (h.1 ▸ hdigits)

end TemplateGate.Text
