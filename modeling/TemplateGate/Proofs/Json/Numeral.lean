/-
# `Proofs.Json.Numeral` — numerals that are read back

`Number.ReadsBack` says of a number that the text it is written as denotes
it.  That holds of every integer (`Number.readsBack_integer`).  It is not
proved of doubles, since reading rounds more than once and may end at a
neighbour; what is proved about texts with doubles asks for it.

A number that reads back by itself does so inside a text as well, before
anything that cannot go on with a number (`tokens_printNumber`).
-/
import TemplateGate.Proofs.Json.Lexer
import TemplateGate.Proofs.Json.Reader

namespace TemplateGate.Json

open Decimal Text

/-- The text that a number is written as denotes the number. -/
def Number.ReadsBack (n : Number) : Prop :=
  parse (Value.number n).compact = .ok (.number n)

/-! ## Integers -/

theorem le_ofDigitChars (cs : List Char) : ∀ n : Nat, n ≤ Nat.ofDigitChars 10 cs n := by
  induction cs with
  | nil => exact fun _ => Nat.le_of_eq Nat.ofDigitChars_nil.symm
  | cons c cs ih =>
      intro n
      rw [Nat.ofDigitChars_cons]
      exact Nat.le_trans (by omega) (ih _)

/-- Digits that stand for a number of 64 bits are all gathered. -/
theorem gather_eq {cs : List Char} : ∀ {n : Nat}, Nat.ofDigitChars 10 cs n < wordLimit →
    gather n cs = (Nat.ofDigitChars 10 cs n, []) := by
  induction cs with
  | nil => exact fun _ => rfl
  | cons c cs ih =>
      intro n h
      rw [Nat.ofDigitChars_cons] at h ⊢
      rw [Nat.mul_comm] at h ⊢
      have hnext := Nat.lt_of_le_of_lt (le_ofDigitChars cs _) h
      rw [gather]
      rw [if_pos hnext, ih h]

theorem numberOf_toDigits {negative : Bool} {n : Nat} {value : Int}
    (hvalue : value = if negative then -(n : Int) else n) (hzero : ¬ (negative = true ∧ n = 0))
    (fits : -9223372036854775808 ≤ value ∧ value < 18446744073709551616) :
    numberOf negative (Nat.toDigits 10 n) none none = some (.integer value fits) := by
  have hlimit : n < wordLimit := by
    rw [wordLimit]
    cases negative <;> simp only [if_true, Bool.false_eq_true, if_false] at hvalue <;> omega
  have hread : Nat.ofDigitChars 10 (Nat.toDigits 10 n) 0 = n := readNumeral_toDigits n
  have hgather : gather 0 (Nat.toDigits 10 n) = (n, []) := by
    rw [gather_eq (by rw [hread]; exact hlimit), hread]
  have hint : Number.ofInt? (if negative then -(n : Int) else n) = some (.integer value fits) := by
    rw [← hvalue, Number.ofInt?, dif_pos fits]
  rw [numberOf]
  rw [hgather]
  dsimp only
  rw [if_neg hzero, hint]

theorem numberToken_toDigits {negative : Bool} {n : Nat} {value : Int}
    (hvalue : value = if negative then -(n : Int) else n) (hzero : ¬ (negative = true ∧ n = 0))
    (fits : -9223372036854775808 ≤ value ∧ value < 18446744073709551616) :
    numberToken negative (Nat.toDigits 10 n) =
      (.number (some (.integer value fits)), some []) := by
  have hspan : (Nat.toDigits 10 n).span Char.isDigit = (Nat.toDigits 10 n, []) := by
    have hall : ∀ c ∈ Nat.toDigits 10 n, c.isDigit = true := fun c hc => isDigit_of_mem_toDigits hc
    have hspan := span_append hall stops_nil
    rwa [List.append_nil] at hspan
  rw [numberToken_eq, hspan]
  split
  · rename_i heq
    exact absurd (Prod.mk.inj heq).1 Nat.toDigits_ne_nil
  · rename_i heq
    exact absurd (Prod.mk.inj heq).1 (toDigits_ne_zero_cons n _ _)
  · rename_i heq
    cases heq
    show (Token.number (numberOf negative (Nat.toDigits 10 n) none none), _) = _
    rw [numberOf_toDigits hvalue hzero fits]

theorem isLayout_of_goesOn {c : Char} (h : goesOn c = true) : isLayout c = false := by
  rw [Bool.eq_false_iff]
  intro hlayout
  simp only [isLayout, Bool.or_eq_true, beq_iff_eq] at hlayout
  rcases hlayout with ((rfl | rfl) | rfl) | rfl <;> cases h

theorem isLayout_of_starts {c : Char} (h : c = '-' ∨ c.isDigit = true) : isLayout c = false := by
  rcases h with rfl | h
  · rfl
  · exact isLayout_of_goesOn (by simp [goesOn, h])

theorem tokenAt_integer (value : Int)
    (fits : -9223372036854775808 ≤ value ∧ value < 18446744073709551616) :
    ∃ c cs, printNumber (.integer value fits) = c :: cs ∧ (c = '-' ∨ c.isDigit = true) ∧
      tokenAt c cs = (.number (some (.integer value fits)), some []) := by
  cases value with
  | ofNat n =>
      have hprint : printNumber (.integer (.ofNat n) fits) = Nat.toDigits 10 n := by
        simp [printNumber, signedNumeral, numeral]
      match hdigits : Nat.toDigits 10 n with
      | [] => exact absurd hdigits Nat.toDigits_ne_nil
      | c :: cs =>
          have hdigit : c.isDigit = true :=
            isDigit_of_mem_toDigits (n := n) (hdigits ▸ List.mem_cons_self)
          refine ⟨c, cs, hprint.trans hdigits, .inr hdigit, ?_⟩
          have hvalue : Int.ofNat n = if false = true then -(n : Int) else n := rfl
          rw [tokenAt_digit hdigit, ← hdigits]
          exact numberToken_toDigits hvalue (by simp) fits
  | negSucc n =>
      have hprint : printNumber (.integer (.negSucc n) fits) = '-' :: Nat.toDigits 10 (n + 1) := by
        simp [printNumber, signedNumeral, numeral]
      have hvalue : Int.negSucc n = if true = true then -((n + 1 : Nat) : Int) else (n + 1 : Nat) :=
        rfl
      exact ⟨'-', _, hprint, .inl rfl, numberToken_toDigits hvalue (by simp) fits⟩

theorem Number.readsBack_integer (value : Int)
    (fits : -9223372036854775808 ≤ value ∧ value < 18446744073709551616) :
    (Number.integer value fits).ReadsBack := by
  obtain ⟨c, cs, hprint, hc, htoken⟩ := tokenAt_integer value fits
  have hlayout : isLayout c = false := isLayout_of_starts hc
  rw [ReadsBack, parse, Value.compact, String.toList_ofList]
  show finish (Json.value maxDepth (tokens (printNumber (.integer value fits)))) = _
  rw [hprint, tokens_cons hlayout htoken, tokens_nil]
  rfl

/-! ## Numbers inside a text -/

theorem goesOn_of_isDigit {c : Char} (h : c.isDigit = true) : goesOn c = true := by
  simp [goesOn, h]

theorem goesOn_of_mem_toDigits {n : Nat} {c : Char} (h : c ∈ Nat.toDigits 10 n) :
    goesOn c = true :=
  goesOn_of_isDigit (isDigit_of_mem_toDigits h)

theorem goesOn_of_mem_printPoint {n : Numeral} {c : Char} (h : c ∈ printPoint n) :
    goesOn c = true := by
  have hzeros : ∀ {k}, c ∈ List.replicate k '0' → goesOn c = true := by
    intro k hc
    rw [List.eq_of_mem_replicate hc]
    rfl
  rw [printPoint] at h
  split at h
  · rw [List.mem_append, List.mem_append] at h
    rcases h with (h | h) | h
    · exact goesOn_of_mem_toDigits h
    · exact hzeros h
    · rcases List.mem_cons.mp h with rfl | h
      · rfl
      · rw [List.mem_singleton.mp h]
        rfl
  · have hpadded : ∀ {k}, c ∈ List.replicate k '0' ++ n.digits → goesOn c = true := by
      intro k hc
      rcases List.mem_append.mp hc with hc | hc
      · exact hzeros hc
      · exact goesOn_of_mem_toDigits hc
    rcases List.mem_append.mp h with h | h
    · exact hpadded (List.mem_of_mem_take h)
    · rcases List.mem_cons.mp h with rfl | h
      · rfl
      · exact hpadded (List.mem_of_mem_drop h)

theorem goesOn_of_mem_printExponent {n : Numeral} {c : Char} (h : c ∈ printExponent n) :
    goesOn c = true := by
  rw [printExponent] at h
  rcases List.mem_append.mp h with h | h
  · have hdigits : ∀ {d}, d ∈ n.digits → goesOn d = true := goesOn_of_mem_toDigits
    split at h
    · cases h
    · rename_i heq
      exact hdigits (heq ▸ h)
    · rename_i d ds heq
      rcases List.mem_cons.mp h with rfl | h
      · exact hdigits (heq ▸ List.mem_cons_self)
      · rcases List.mem_cons.mp h with rfl | h
        · rfl
        · exact hdigits (heq ▸ List.mem_cons_of_mem _ h)
  · rcases List.mem_cons.mp h with rfl | h
    · rfl
    · rcases List.mem_cons.mp h with rfl | h
      · split <;> rfl
      · exact goesOn_of_mem_toDigits h

theorem goesOn_of_mem_printNumber {n : Number} {c : Char} (h : c ∈ printNumber n) :
    goesOn c = true := by
  match n with
  | .integer (.ofNat m) _ =>
      exact goesOn_of_mem_toDigits (by simpa [printNumber, signedNumeral, numeral] using h)
  | .integer (.negSucc m) _ =>
      have h : c = '-' ∨ c ∈ Nat.toDigits 10 (m + 1) := by
        simpa [printNumber, signedNumeral, numeral] using h
      rcases h with rfl | h
      · rfl
      · exact goesOn_of_mem_toDigits h
  | .double d =>
      have hbody : ∀ {c}, c ∈ (if -5 ≤ d.shortest.leading ∧ d.shortest.leading ≤ 15
          then printPoint d.shortest else printExponent d.shortest) → goesOn c = true := by
        intro c hc
        split at hc
        · exact goesOn_of_mem_printPoint hc
        · exact goesOn_of_mem_printExponent hc
      unfold printNumber printDouble at h
      dsimp only at h
      split at h
      · rcases List.mem_cons.mp h with rfl | h
        · rfl
        · exact hbody h
      · exact hbody h

theorem tokens_of_parse_number {text : String} {n : Number}
    (h : parse text = .ok (.number n)) : tokens text.toList = [.number (some n)] := by
  rcases value_cases (finish_eq_ok_iff.mp h) with ⟨t, hts, hscalar⟩ | ⟨_, _, _, _, _, _, hv⟩ |
    ⟨_, _, _, _, _, _, hv⟩
  · rw [hts, token_of_scalar_number hscalar]
  · cases hv
  · cases hv

/-- A number that is the only token of a text without white space goes to
the end of the text. -/
theorem tokenAt_of_tokens {cs : List Char} {n : Option Number} (h : tokens cs = [.number n])
    (hlayout : ∀ c ∈ cs, isLayout c = false) : ∃ c rest, cs = c :: rest ∧
      (c = '-' ∨ c.isDigit = true) ∧ tokenAt c rest = (.number n, some []) := by
  match cs with
  | [] => cases h
  | c :: rest =>
      have hc := hlayout c List.mem_cons_self
      rcases htoken : tokenAt c rest with ⟨t, _ | rest'⟩
      · rw [tokens_cons_none hc htoken] at h
        cases h
        rcases starts_of_tokenAt_number (congrArg Prod.fst htoken) with rfl | hdigit
        · exact absurd htoken numberToken_ne_none
        · rw [tokenAt_digit hdigit] at htoken
          exact absurd htoken numberToken_ne_none
      · rw [tokens_cons hc htoken] at h
        obtain ⟨rfl, hrest⟩ := List.cons.inj h
        refine ⟨c, rest, rfl, starts_of_tokenAt_number (congrArg Prod.fst htoken), ?_⟩
        match rest' with
        | [] => exact htoken
        | d :: rest'' =>
            -- A second token would follow.
            have hd := hlayout d
              (List.mem_cons_of_mem c ((suffix_of_tokenAt htoken).subset List.mem_cons_self))
            rcases htoken' : tokenAt d rest'' with ⟨t, _ | _⟩
            · rw [tokens_cons_none hd htoken'] at hrest
              cases hrest
            · rw [tokens_cons hd htoken'] at hrest
              cases hrest

/-- A number that reads back does so before anything that cannot go on
with a number. -/
theorem tokens_printNumber {n : Number} (h : n.ReadsBack) {tail : List Char}
    (hstop : Stops goesOn tail) :
    tokens (printNumber n ++ tail) = .number (some n) :: tokens tail := by
  have htokens : tokens (printNumber n) = [.number (some n)] := by
    have := tokens_of_parse_number h
    rwa [Value.compact, String.toList_ofList] at this
  obtain ⟨c, cs, hprint, hc, htoken⟩ := tokenAt_of_tokens htokens
    fun c hc => isLayout_of_goesOn (goesOn_of_mem_printNumber hc)
  have htoken' := tokenAt_append hstop hc htoken
  rw [hprint, List.cons_append, tokens_cons (isLayout_of_starts hc) htoken', List.nil_append]

end TemplateGate.Json
