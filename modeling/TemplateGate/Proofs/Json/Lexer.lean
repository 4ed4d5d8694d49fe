/-
# `Proofs.Json.Lexer` — how a text falls into tokens

`tokens` is fuelled by the length of its text.  A token takes at least the
character it starts with (`suffix_of_tokenAt`), so the fuel never runs
out, and the tokens of a text are those of its first token and of what
that leaves (`tokens_cons`).

A string is read back as what it was escaped from (`tokens_printString`).
For numbers only one thing is needed: a number that ends its text is the
same number before any character that cannot go on with it
(`tokenAt_append`), so that what is known of a numeral by itself
holds of it inside a text.  Of the strings of any text it is needed that
the two verdicts on them agree: what can be read can be passed over
(`passed_of_mem_tokens`).
-/
import TemplateGate.Proofs.Text.Scan
import TemplateGate.Proofs.Json.Grammar

namespace TemplateGate.Json

open Text

/-! ## What a token leaves -/

theorem suffix_of_pieces {rest : List Char} : ∀ {cs : List Char},
    (pieces cs).2 = .closed rest → rest <:+ cs := by
  intro cs
  fun_induction pieces cs with
  | case1 => exact fun h => by cases h
  | case2 rest' =>
      intro h
      cases h
      exact List.suffix_cons '"' _
  | case3 => exact fun h => by cases h
  | case4 a b c d rest' n _ ps e hrest ih =>
      intro h
      rw [hrest] at ih
      exact (ih h).trans (List.suffix_append ['\\', 'u', a, b, c, d] rest')
  | case5 => exact fun h => by cases h
  | case6 => exact fun h => by cases h
  | case7 letter rest' _ _ c _ ps e hrest ih =>
      intro h
      rw [hrest] at ih
      exact (ih h).trans (List.suffix_append ['\\', letter] rest')
  | case8 => exact fun h => by cases h
  | case9 => exact fun h => by cases h
  | case10 c rest' _ _ _ _ _ _ ps e hrest ih =>
      intro h
      rw [hrest] at ih
      exact (ih h).trans (List.suffix_cons c rest')

theorem suffix_of_stringToken {cs rest : List Char} {t : Token}
    (h : stringToken cs = (t, some rest)) : rest <:+ cs := by
  refine suffix_of_pieces ?_
  rw [stringToken] at h
  split at h
  · rename_i hpieces
    cases h
    rw [hpieces]
  · cases h

theorem suffix_of_exponentPart {cs rest : List Char} {exponent : Int}
    (h : exponentPart cs = some (.ok (exponent, rest))) : rest <:+ cs := by
  unfold exponentPart at h
  split at h
  · cases h
  · rename_i c cs
    split at h
    · dsimp only at h
      split at h
      · cases h
      · rename_i hspan
        cases h
        refine (suffix_of_span hspan).trans ?_
        split
        · exact (List.tail_suffix cs).trans (List.suffix_cons c cs)
        · exact List.suffix_cons c cs
    · cases h

/-- How a number ends, from behind its places: with an exponent or without one. -/
def numberEnd (negative : Bool) (whole : List Char) (places : Option (List Char))
    (rest : List Char) : Token × Option (List Char) :=
  match exponentPart rest with
  | none => (.number (numberOf negative whole places none), some rest)
  | some (.error rest) => brokenNumber rest
  | some (.ok (exponent, rest)) =>
      (.number (numberOf negative whole places (some exponent)), some rest)

/-- How a number goes on behind its digits: with a point and places, or without. -/
def numberRest (negative : Bool) (whole : List Char) : List Char → Token × Option (List Char)
  | '.' :: rest =>
      match rest.span Char.isDigit with
      | ([], rest) => brokenNumber rest
      | (places, rest) => numberEnd negative whole (some places) rest
  | rest => numberEnd negative whole none rest

theorem numberToken_eq (negative : Bool) (cs : List Char) : numberToken negative cs =
    match cs.span Char.isDigit with
    | ([], rest) => brokenNumber rest
    | ('0' :: _ :: _, _) => (.broken .malformed .malformed, none)
    | (whole, rest) => numberRest negative whole rest := rfl

theorem suffix_of_numberEnd {negative : Bool} {whole : List Char} {places : Option (List Char)}
    {cs rest : List Char} {t : Token} (h : numberEnd negative whole places cs = (t, some rest)) :
    rest <:+ cs := by
  rw [numberEnd] at h
  split at h
  · cases h
    exact List.suffix_refl _
  · cases h
  · rename_i hexponent
    cases h
    exact suffix_of_exponentPart hexponent

theorem suffix_of_numberRest {negative : Bool} {whole cs rest : List Char} {t : Token}
    (h : numberRest negative whole cs = (t, some rest)) : rest <:+ cs := by
  unfold numberRest at h
  split at h
  · split at h
    · cases h
    · rename_i hplaces
      exact (suffix_of_numberEnd h).trans ((suffix_of_span hplaces).trans (List.suffix_cons '.' _))
  · exact suffix_of_numberEnd h

theorem suffix_of_numberToken {negative : Bool} {cs rest : List Char} {t : Token}
    (h : numberToken negative cs = (t, some rest)) : rest <:+ cs.dropWhile Char.isDigit := by
  rw [numberToken_eq, List.span_eq_takeWhile_dropWhile] at h
  split at h
  · cases h
  · cases h
  · rename_i hspan
    rw [(Prod.mk.inj hspan).2]
    exact suffix_of_numberRest h

theorem suffix_of_wordToken {token t : Token} {rest expected : List Char} :
    ∀ {cs : List Char}, wordToken token expected cs = (t, some rest) → rest <:+ cs := by
  induction expected with
  | nil =>
      intro cs h
      cases h
      exact List.suffix_refl _
  | cons e expected ih =>
      intro cs h
      cases cs with
      | nil => cases h
      | cons c cs =>
          rw [wordToken] at h
          split at h
          · exact (ih h).trans (List.suffix_cons c cs)
          · cases h

/-- A token takes at least the character it starts with. -/
theorem suffix_of_tokenAt {c : Char} {cs rest : List Char} {t : Token}
    (h : tokenAt c cs = (t, some rest)) : rest <:+ cs := by
  unfold tokenAt at h
  split at h
  case h_7 => exact suffix_of_stringToken h
  case h_8 | h_9 | h_10 => exact suffix_of_wordToken h
  case h_11 => exact (suffix_of_numberToken h).trans (List.dropWhile_suffix Char.isDigit)
  case h_12 =>
      split at h
      · rename_i hdigit
        have hrest := suffix_of_numberToken h
        rw [List.dropWhile_cons_of_pos hdigit] at hrest
        exact hrest.trans (List.dropWhile_suffix Char.isDigit)
      · cases h
  all_goals
    cases h
    exact List.suffix_refl _

/-! ## The tokens of a text -/

theorem tokensWithin_succ {fuel : Nat} : ∀ {cs : List Char}, cs.length ≤ fuel →
    tokensWithin (fuel + 1) cs = tokensWithin fuel cs := by
  induction fuel with
  | zero =>
      intro cs h
      rw [List.eq_nil_of_length_eq_zero (Nat.le_zero.mp h)]
      rfl
  | succ fuel ih =>
      intro cs h
      cases cs with
      | nil => rfl
      | cons c cs =>
          have hle : cs.length ≤ fuel := Nat.le_of_succ_le_succ h
          rw [tokensWithin, tokensWithin]
          split
          · exact ih hle
          · split
            · rename_i htoken
              rw [ih (Nat.le_trans (suffix_of_tokenAt htoken).length_le hle)]
            · rfl

/-- More fuel than the text is long makes no difference. -/
theorem tokensWithin_eq {fuel : Nat} {cs : List Char} (h : cs.length ≤ fuel) :
    tokensWithin fuel cs = tokens cs := by
  induction h with
  | refl => rfl
  | step h ih => rw [tokensWithin_succ h, ih]

theorem tokens_nil : tokens [] = [] := rfl

theorem tokens_layout {c : Char} (h : isLayout c = true) (rest : List Char) :
    tokens (c :: rest) = tokens rest := by
  rw [tokens, List.length_cons, tokensWithin, if_pos h, tokens]

theorem tokens_layouts {rest cs : List Char} (h : ∀ c ∈ cs, isLayout c = true) :
    tokens (cs ++ rest) = tokens rest := by
  induction cs with
  | nil => rfl
  | cons c cs ih =>
      rw [List.cons_append, tokens_layout (h c List.mem_cons_self)]
      exact ih fun d hd => h d (List.mem_cons_of_mem c hd)

/-- A text falls into its first token and the tokens of what that leaves. -/
theorem tokens_cons {c : Char} {cs rest : List Char} {t : Token} (hlayout : isLayout c = false)
    (h : tokenAt c cs = (t, some rest)) : tokens (c :: cs) = t :: tokens rest := by
  rw [tokens, List.length_cons, tokensWithin, if_neg (by simp [hlayout]), h]
  exact congrArg (t :: ·) (tokensWithin_eq (suffix_of_tokenAt h).length_le)

theorem tokens_cons_none {c : Char} {cs : List Char} {t : Token} (hlayout : isLayout c = false)
    (h : tokenAt c cs = (t, none)) : tokens (c :: cs) = [t] := by
  rw [tokens, List.length_cons, tokensWithin, if_neg (by simp [hlayout]), h]

/-! ## Strings -/

/-- The token of a text that can be read. -/
def Token.ofText (s : String) : Token := .string (.ok s) (.ok ())

theorem tokens_printString (s : String) (rest : List Char) :
    tokens (printString s ++ rest) = .ofText s :: tokens rest := by
  have htoken : tokenAt '"' (s.toList.flatMap escapeChar ++ '"' :: rest) =
      (.ofText s, some rest) := by
    have hread := Grammar.stringToken_of_spells (Grammar.spells_flatMap_escapeChar s.toList) rest
    rwa [String.ofList_toList] at hread
  rw [printString, List.cons_append, List.append_assoc, List.singleton_append]
  exact tokens_cons rfl htoken

/-! ## Numbers -/

/-- The characters that can go on with a number. -/
def goesOn (c : Char) : Bool :=
  c.isDigit || c == '.' || c == 'e' || c == 'E' || c == '-' || c == '+'

theorem stops_isDigit {tail : List Char} (h : Stops goesOn tail) : Stops Char.isDigit tail := by
  intro c hc
  have := h c hc
  simp only [goesOn, Bool.or_eq_false_iff] at this
  exact this.1.1.1.1.1

theorem exponentPart_append {tail : List Char} (hstop : Stops goesOn tail) (cs : List Char) :
    exponentPart (cs ++ tail) = (exponentPart cs).map fun
      | .error rest => .error (rest ++ tail)
      | .ok (exponent, rest) => .ok (exponent, rest ++ tail) := by
  match cs with
  | [] =>
      match tail with
      | [] => rfl
      | c :: tail =>
          have hc := stops_cons.mp hstop
          simp only [goesOn, Bool.or_eq_false_iff, beq_eq_false_iff_ne] at hc
          simp [exponentPart, hc]
  | c :: cs =>
      have hhead : ∀ d, goesOn d = true → ((cs ++ tail).head? = some d ↔ cs.head? = some d) := by
        intro d hd
        cases cs with
        | nil =>
            refine ⟨fun h => ?_, fun h => by cases h⟩
            rw [hstop d h] at hd
            cases hd
        | cons _ _ => exact Iff.rfl
      have hunsigned : (if (cs ++ tail).head? = some '-' ∨ (cs ++ tail).head? = some '+'
          then (cs ++ tail).tail else cs ++ tail) =
          (if cs.head? = some '-' ∨ cs.head? = some '+' then cs.tail else cs) ++ tail := by
        simp only [hhead '-' rfl, hhead '+' rfl]
        cases cs with
        | nil => simp
        | cons _ _ => split <;> rfl
      rw [List.cons_append]
      unfold exponentPart
      dsimp only
      by_cases hc : c = 'e' ∨ c = 'E'
      · rw [if_pos hc, if_pos hc, hunsigned, span_append_of_stops (stops_isDigit hstop)]
        simp only [hhead '-' rfl]
        rcases List.span Char.isDigit _ with ⟨_ | ⟨d, ds⟩, rest⟩ <;> rfl
      · rw [if_neg hc, if_neg hc]
        rfl

theorem numberEnd_append {tail : List Char} (hstop : Stops goesOn tail) {negative : Bool}
    {whole : List Char} {places : Option (List Char)} {cs rest : List Char} {t : Token}
    (h : numberEnd negative whole places cs = (t, some rest)) :
    numberEnd negative whole places (cs ++ tail) = (t, some (rest ++ tail)) := by
  rw [numberEnd] at h ⊢
  rw [exponentPart_append hstop]
  split at h
  · rename_i hexponent
    cases h
    rw [hexponent]
    rfl
  · cases h
  · rename_i hexponent
    cases h
    rw [hexponent]
    rfl

theorem numberRest_append {tail : List Char} (hstop : Stops goesOn tail) {negative : Bool}
    {whole cs rest : List Char} {t : Token}
    (h : numberRest negative whole cs = (t, some rest)) :
    numberRest negative whole (cs ++ tail) = (t, some (rest ++ tail)) := by
  by_cases hpoint : ∃ places, cs = '.' :: places
  · obtain ⟨places, rfl⟩ := hpoint
    rw [numberRest] at h
    rw [List.cons_append, numberRest, span_append_of_stops (stops_isDigit hstop)]
    rcases hspan : places.span Char.isDigit with ⟨_ | ⟨d, ds⟩, rest'⟩
    · rw [hspan] at h
      cases h
    · rw [hspan] at h
      exact numberEnd_append hstop h
  · have hpoint' : ∀ places, cs ++ tail ≠ '.' :: places := by
      rintro places heq
      cases cs with
      | nil =>
          rw [List.nil_append] at heq
          subst heq
          cases stops_cons.mp hstop
      | cons c cs =>
          cases heq
          exact hpoint ⟨cs, rfl⟩
    have heq : ∀ {cs : List Char}, (∀ places, cs ≠ '.' :: places) →
        numberRest negative whole cs = numberEnd negative whole none cs := by
      intro cs hne
      rw [numberRest]
      exact fun places => hne places
    rw [heq fun places hplaces => hpoint ⟨places, hplaces⟩] at h
    rw [heq hpoint']
    exact numberEnd_append hstop h

theorem numberToken_append {tail : List Char} (hstop : Stops goesOn tail) {negative : Bool}
    {cs rest : List Char} {t : Token} (h : numberToken negative cs = (t, some rest)) :
    numberToken negative (cs ++ tail) = (t, some (rest ++ tail)) := by
  rw [numberToken_eq] at h ⊢
  rw [span_append_of_stops (stops_isDigit hstop)]
  split at h
  · cases h
  · cases h
  · rename_i hne hzero hspan
    rw [hspan]
    split
    · rename_i heq
      exact absurd (Prod.mk.inj heq).1 hne
    · rename_i heq
      exact absurd (Prod.mk.inj heq).1 (hzero _ _)
    · rename_i heq
      cases heq
      exact numberRest_append hstop h

theorem tokenAt_digit {c : Char} (h : c.isDigit = true) (cs : List Char) :
    tokenAt c cs = numberToken false (c :: cs) := by
  unfold tokenAt
  split
  case h_12 => rw [if_pos h]
  all_goals cases h

theorem fst_wordToken (token : Token) (expected : List Char) : ∀ cs : List Char,
    (wordToken token expected cs).1 = token ∨
      ∃ fault passed, (wordToken token expected cs).1 = .broken fault passed := by
  induction expected with
  | nil => exact fun _ => .inl rfl
  | cons e expected ih =>
      intro cs
      cases cs with
      | nil => exact .inr ⟨_, _, rfl⟩
      | cons c cs =>
          rw [wordToken]
          split
          · exact ih cs
          · exact .inr ⟨_, _, rfl⟩

theorem fst_stringToken (cs : List Char) :
    ∃ text passed, (stringToken cs).1 = .string text passed := by
  rw [stringToken]
  split <;> exact ⟨_, _, rfl⟩

theorem starts_of_tokenAt_number {c : Char} {cs : List Char} {n : Option Number}
    (h : (tokenAt c cs).1 = .number n) : c = '-' ∨ c.isDigit = true := by
  have hword : ∀ {token : Token} {expected : List Char}, (∀ m, token ≠ .number m) →
      (wordToken token expected cs).1 ≠ .number n := by
    intro token expected hne heq
    rcases fst_wordToken token expected cs with hfst | ⟨_, _, hfst⟩
    · exact hne n (hfst.symm.trans heq)
    · rw [hfst] at heq
      cases heq
  unfold tokenAt at h
  split at h
  case h_7 =>
      obtain ⟨_, _, hfst⟩ := fst_stringToken cs
      rw [hfst] at h
      cases h
  case h_8 | h_9 | h_10 => exact absurd h (hword (by simp))
  case h_11 => exact .inl rfl
  case h_12 =>
      split at h
      · rename_i hdigit
        exact .inr hdigit
      · cases h
  all_goals cases h

/-- What starts like a number is one token to its end, or to a fault. -/
theorem tokenAt_append {tail : List Char} (hstop : Stops goesOn tail) {c : Char}
    (hc : c = '-' ∨ c.isDigit = true) {cs rest : List Char} {t : Token}
    (h : tokenAt c cs = (t, some rest)) : tokenAt c (cs ++ tail) = (t, some (rest ++ tail)) := by
  rcases hc with rfl | hdigit
  · exact numberToken_append hstop h
  · rw [tokenAt_digit hdigit] at h ⊢
    exact numberToken_append hstop h

theorem numberToken_ne_none {negative : Bool} {cs : List Char} {n : Option Number} :
    numberToken negative cs ≠ (.number n, none) := by
  have hend : ∀ whole places cs, numberEnd negative whole places cs ≠ (.number n, none) := by
    intro whole places cs h
    rw [numberEnd] at h
    split at h <;> cases h
  intro h
  rw [numberToken_eq] at h
  split at h
  · cases h
  · cases h
  · unfold numberRest at h
    split at h
    · split at h
      · cases h
      · exact hend _ _ _ h
    · exact hend _ _ _ h

theorem fst_numberToken (negative : Bool) (cs : List Char) :
    (∃ n, (numberToken negative cs).1 = .number n) ∨
      ∃ fault passed, (numberToken negative cs).1 = .broken fault passed := by
  have hend : ∀ whole places cs, (∃ n, (numberEnd negative whole places cs).1 = .number n) ∨
      ∃ fault passed, (numberEnd negative whole places cs).1 = .broken fault passed := by
    intro whole places cs
    rw [numberEnd]
    split
    · exact .inl ⟨_, rfl⟩
    · exact .inr ⟨_, _, rfl⟩
    · exact .inl ⟨_, rfl⟩
  rw [numberToken_eq]
  split
  · exact .inr ⟨_, _, rfl⟩
  · exact .inr ⟨_, _, rfl⟩
  · unfold numberRest
    split
    · split
      · exact .inr ⟨_, _, rfl⟩
      · exact hend _ _ _
    · exact hend _ _ _

/-! ## Strings among the tokens of a text -/

theorem passed_of_tokenAt {c : Char} {cs : List Char} {s : String} {passed : Except Fault Unit}
    (h : (tokenAt c cs).1 = .string (.ok s) passed) : passed = .ok () := by
  have hword : ∀ {token : Token} {expected : List Char}, token ≠ .string (.ok s) passed →
      (wordToken token expected cs).1 ≠ .string (.ok s) passed := by
    intro token expected hne heq
    rcases fst_wordToken token expected cs with hfst | ⟨_, _, hfst⟩
    · exact hne (hfst.symm.trans heq)
    · rw [hfst] at heq
      cases heq
  have hnumber : ∀ negative cs, (numberToken negative cs).1 ≠ .string (.ok s) passed := by
    intro negative cs heq
    rcases fst_numberToken negative cs with ⟨_, hfst⟩ | ⟨_, _, hfst⟩
    · rw [hfst] at heq
      cases heq
    · rw [hfst] at heq
      cases heq
  unfold tokenAt at h
  split at h
  case h_7 =>
      rw [stringToken] at h
      split at h
      · exact (Token.string.inj h).2.symm
      · cases (Token.string.inj h).1
  case h_8 | h_9 | h_10 => exact absurd h (hword (by simp))
  case h_11 => exact absurd h (hnumber _ _)
  case h_12 =>
      split at h
      · exact absurd h (hnumber _ _)
      · cases h
  all_goals cases h

theorem passed_of_mem_tokensWithin {fuel : Nat} {cs : List Char} {s : String}
    {passed : Except Fault Unit} (h : .string (.ok s) passed ∈ tokensWithin fuel cs) :
    passed = .ok () := by
  fun_induction tokensWithin fuel cs with
  | case1 => cases h
  | case2 => cases h
  | case3 fuel c cs _ ih => exact ih h
  | case4 fuel c cs _ t rest htoken ih =>
      rcases List.mem_cons.mp h with heq | h
      · exact passed_of_tokenAt ((congrArg Prod.fst htoken).trans heq.symm)
      · exact ih h
  | case5 fuel c cs _ t htoken =>
      have heq := List.mem_singleton.mp h
      exact passed_of_tokenAt ((congrArg Prod.fst htoken).trans heq.symm)

/-- A string of a text that can be read can be passed over. -/
theorem passed_of_mem_tokens {cs : List Char} {s : String} {passed : Except Fault Unit}
    (h : .string (.ok s) passed ∈ tokens cs) : passed = .ok () :=
  passed_of_mem_tokensWithin h

end TemplateGate.Json
