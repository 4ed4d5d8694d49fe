/-
# `Proofs.Json.Words` — the words of the grammar and the tokens of the lexer

A token that is a value by itself is a word of the grammar
(`scalar_of_tokenAt`), and such a word is one token before anything that a
number cannot go on with (`tokenAt_of_scalar`).  For strings this is known
already; here it is shown of numerals, part by part, and put together.
-/
import Mathlib.Data.List.TakeWhile
import TemplateGate.Proofs.Json.Tokens

namespace TemplateGate.Json

open Text

namespace Grammar

/-! ## Numerals -/

theorem digits_of_span {cs d : List Char} {rest : List Char}
    (h : cs.span Char.isDigit = (d, rest)) : cs = d ++ rest ∧ ∀ c ∈ d, c.isDigit = true := by
  rw [List.span_eq_takeWhile_dropWhile] at h
  cases h
  exact ⟨(List.takeWhile_append_dropWhile).symm, fun c hc => List.mem_takeWhile_imp hc⟩

theorem Digits.span {cs tail : List Char} (h : Digits cs) (hstop : Stops Char.isDigit tail) :
    (cs ++ tail).span Char.isDigit = (cs, tail) :=
  span_append h.2 hstop

theorem exponent_of_exponentPart {cs rest : List Char} {n : Int}
    (h : exponentPart cs = some (.ok (n, rest))) :
    ∃ power, cs = power ++ rest ∧ Exponent power (some n) := by
  unfold exponentPart at h
  split at h
  · cases h
  · rename_i c cs
    split at h
    · rename_i hc
      dsimp only at h
      split at h
      · cases h
      · rename_i ds rest' hne hspan
        cases h
        obtain ⟨hcs, hall⟩ := digits_of_span hspan
        have hds : Digits ds := ⟨hne, hall⟩
        by_cases hminus : cs.head? = some '-'
        · obtain ⟨cs', rfl⟩ := List.head?_eq_some_iff.mp hminus
          rw [if_pos (.inl rfl), List.tail_cons] at hcs
          exact ⟨c :: '-' :: ds, by rw [hcs]; rfl, .minus hc hds⟩
        · by_cases hplus : cs.head? = some '+'
          · obtain ⟨cs', rfl⟩ := List.head?_eq_some_iff.mp hplus
            rw [if_pos (.inr rfl), List.tail_cons] at hcs
            exact ⟨c :: '+' :: ds, by rw [hcs]; rfl, .plus hc hds⟩
          · rw [if_neg (by simp [hminus, hplus])] at hcs
            rw [if_neg hminus]
            exact ⟨c :: ds, by rw [hcs]; rfl, .plain hc hds⟩
    · cases h

/-- An exponent that is written is read, before anything it cannot go on with. -/
theorem exponentPart_of_exponent {power tail : List Char} {exponent : Option Int}
    (h : Exponent power exponent) (hstop : Stops goesOn tail) :
    exponentPart (power ++ tail) = exponent.map fun n => .ok (n, tail) := by
  have hread : ∀ {e : Char} {cs ds : List Char} {n : Int}, e = 'e' ∨ e = 'E' → Digits ds →
      (if cs.head? = some '-' ∨ cs.head? = some '+' then cs.tail else cs) = ds ++ tail →
      (if cs.head? = some '-' then -(readNumeral ds : Int) else readNumeral ds) = n →
      exponentPart (e :: cs) = some (.ok (n, tail)) := by
    intro e cs ds n he hds hcs hn
    unfold exponentPart
    dsimp only
    rw [if_pos he, hcs, hds.span (stops_isDigit hstop)]
    obtain ⟨d, ds', rfl⟩ := List.exists_cons_of_ne_nil hds.1
    dsimp only
    rw [hn]
  cases h with
  | none =>
      cases tail with
      | nil => rfl
      | cons c tail =>
          have hc := stops_cons.mp hstop
          simp only [goesOn, Bool.or_eq_false_iff, beq_eq_false_iff_ne] at hc
          show exponentPart (c :: tail) = none
          unfold exponentPart
          dsimp only
          rw [if_neg (by simp [hc])]
  | @plain e ds he hds =>
      obtain ⟨d, ds', rfl⟩ := List.exists_cons_of_ne_nil hds.1
      have hd : d.isDigit = true := hds.2 d List.mem_cons_self
      have hminus : d ≠ '-' := by
        rintro rfl
        cases hd
      have hplus : d ≠ '+' := by
        rintro rfl
        cases hd
      exact hread he hds (by simp [hminus, hplus]) (by simp [hminus])
  | plus he hds => exact hread he hds rfl rfl
  | minus he hds => exact hread he hds rfl rfl

theorem unsigned_of_numberToken {negative : Bool} {cs rest : List Char} {n : Number}
    (h : numberToken negative cs = (.number (some n), some rest)) :
    ∃ src, cs = src ++ rest ∧ Unsigned negative src n := by
  have hend : ∀ {whole point cs' : List Char} {places : Option (List Char)},
      cs = whole ++ (point ++ cs') → Whole whole → Places point places →
      numberEnd negative whole places cs' = (.number (some n), some rest) →
      ∃ src, cs = src ++ rest ∧ Unsigned negative src n := by
    intro whole point cs' places hcs hwhole hplaces h
    rw [numberEnd] at h
    split at h
    · rename_i hnone
      rw [Prod.mk.injEq, Token.number.injEq, Option.some.injEq] at h
      obtain ⟨hn, rfl⟩ := h
      refine ⟨whole ++ (point ++ []), by simp [hcs], .mk hwhole hplaces .none hn⟩
    · cases h
    · rename_i exponent rest' hsome
      rw [Prod.mk.injEq, Token.number.injEq, Option.some.injEq] at h
      obtain ⟨hn, rfl⟩ := h
      obtain ⟨power, rfl, hpower⟩ := exponent_of_exponentPart hsome
      exact ⟨whole ++ (point ++ power), by simp [hcs], .mk hwhole hplaces hpower hn⟩
  rw [numberToken_eq] at h
  split at h
  · cases h
  · cases h
  · rename_i whole rest' hne hzero hspan
    obtain ⟨hcs, hall⟩ := digits_of_span hspan
    have hwhole : Whole whole := ⟨⟨hne, hall⟩, hzero⟩
    unfold numberRest at h
    split at h
    · split at h
      · cases h
      · rename_i places rest'' hne' hspan'
        obtain ⟨rfl, hall'⟩ := digits_of_span hspan'
        exact hend hcs hwhole (.some ⟨hne', hall'⟩) h
    · exact hend hcs hwhole .none h

/-- What follows the digits and places of a numeral goes on with neither. -/
theorem Exponent.head {power tail : List Char} {exponent : Option Int}
    (h : Exponent power exponent) (hstop : Stops goesOn tail) :
    ∀ c ∈ (power ++ tail).head?, c.isDigit = false ∧ c ≠ '.' := by
  have hmark : ∀ {e : Char} {cs : List Char}, e = 'e' ∨ e = 'E' →
      ∀ c ∈ (e :: cs).head?, c.isDigit = false ∧ c ≠ '.' := by
    intro e cs he c hc
    cases hc
    rcases he with rfl | rfl <;> decide
  cases h with
  | none =>
      intro c hc
      have hgoes := hstop c hc
      simp only [goesOn, Bool.or_eq_false_iff, beq_eq_false_iff_ne] at hgoes
      exact ⟨hgoes.1.1.1.1.1, hgoes.1.1.1.1.2⟩
  | plain he _ => exact hmark he
  | plus he _ => exact hmark he
  | minus he _ => exact hmark he

theorem numberToken_of_unsigned {negative : Bool} {src tail : List Char} {n : Number}
    (h : Unsigned negative src n) (hstop : Stops goesOn tail) :
    numberToken negative (src ++ tail) = (.number (some n), some tail) := by
  cases h with
  | @mk whole point power places exponent n hwhole hplaces hpower hn =>
      have hend : numberEnd negative whole places (power ++ tail) =
          (.number (some n), some tail) := by
        rw [numberEnd, exponentPart_of_exponent hpower hstop]
        cases hpower <;> simp only [Option.map_none, Option.map_some, hn, List.nil_append]
      have hhead := hpower.head hstop
      have hrest : numberRest negative whole (point ++ (power ++ tail)) =
          (.number (some n), some tail) := by
        cases hplaces with
        | none =>
            rw [List.nil_append, numberRest, hend]
            intro rest heq
            exact (hhead '.' (by rw [heq]; rfl)).2 rfl
        | @some ds hds =>
            rw [List.cons_append, numberRest, hds.span fun c hc => (hhead c hc).1]
            obtain ⟨d, ds', rfl⟩ := List.exists_cons_of_ne_nil hds.1
            exact hend
      have hstop' : Stops Char.isDigit (point ++ (power ++ tail)) := by
        cases hplaces with
        | none => exact fun c hc => (hhead c hc).1
        | some _ => exact stops_cons.mpr rfl
      rw [List.append_assoc, List.append_assoc, numberToken_eq, hwhole.digits.span hstop']
      split
      · rename_i heq
        exact absurd (Prod.mk.inj heq).1 hwhole.digits.1
      · rename_i heq
        exact absurd (Prod.mk.inj heq).1 (hwhole.leading _ _)
      · rename_i heq
        rw [← (Prod.mk.inj heq).1, ← (Prod.mk.inj heq).2]
        exact hrest

theorem Unsigned.exists_eq_cons {negative : Bool} {src : List Char} {n : Number}
    (h : Unsigned negative src n) : ∃ d ds, src = d :: ds ∧ d.isDigit = true := by
  cases h with
  | mk hwhole _ _ _ =>
      obtain ⟨d, ds, rfl⟩ := List.exists_cons_of_ne_nil hwhole.digits.1
      exact ⟨d, _, rfl, hwhole.digits.2 d List.mem_cons_self⟩

/-! ## Scalars -/

theorem eq_of_wordToken {token t : Token} {left : Option (List Char)} {expected : List Char} :
    ∀ {cs : List Char}, wordToken token expected cs = (t, left) →
      (∃ fault passed, t = .broken fault passed) ∨
        ∃ rest, left = some rest ∧ t = token ∧ cs = expected ++ rest := by
  induction expected with
  | nil =>
      intro cs h
      cases h
      exact .inr ⟨cs, rfl, rfl, rfl⟩
  | cons e expected ih =>
      intro cs h
      cases cs with
      | nil =>
          cases h
          exact .inl ⟨_, _, rfl⟩
      | cons c cs =>
          rw [wordToken] at h
          split at h
          · rename_i heq
            rcases ih h with hbroken | ⟨rest, hleft, ht, hcs⟩
            · exact .inl hbroken
            · exact .inr ⟨rest, hleft, ht, by rw [heq, hcs]; rfl⟩
          · cases h
            exact .inl ⟨_, _, rfl⟩

theorem numeral_of_numberToken {negative : Bool} {cs : List Char} {left : Option (List Char)}
    {t : Token} {v : Value} (htoken : numberToken negative cs = (t, left))
    (hscalar : scalar t = some (.ok v)) :
    ∃ src rest n, left = some rest ∧ cs = src ++ rest ∧ Unsigned negative src n ∧
      v = .number n := by
  have hfst : (numberToken negative cs).1 = t := congrArg Prod.fst htoken
  rcases fst_numberToken negative cs with ⟨n, hn⟩ | ⟨fault, passed, hbroken⟩
  · rw [hfst] at hn
    subst hn
    cases n with
    | none => cases hscalar
    | some n =>
        cases hscalar
        cases left with
        | none => exact absurd htoken numberToken_ne_none
        | some rest =>
            obtain ⟨src, hcs, hsrc⟩ := unsigned_of_numberToken htoken
            exact ⟨src, rest, n, rfl, hcs, hsrc, rfl⟩
  · rw [hfst] at hbroken
    subst hbroken
    cases hscalar

theorem scalar_of_tokenAt {c : Char} {cs : List Char} {left : Option (List Char)} {t : Token}
    {v : Value} (htoken : tokenAt c cs = (t, left)) (hscalar : scalar t = some (.ok v)) :
    ∃ src rest, left = some rest ∧ c :: cs = src ++ rest ∧ Scalar src v := by
  have hword : ∀ {c : Char} {word : List Char} {token : Token} {w : Value},
      Scalar (c :: word) w → scalar token = some (.ok w) →
      wordToken token word cs = (t, left) →
      ∃ src rest, left = some rest ∧ c :: cs = src ++ rest ∧ Scalar src v := by
    intro c word token w hsrc hw htoken
    rcases eq_of_wordToken htoken with ⟨fault, passed, rfl⟩ | ⟨rest, hleft, rfl, rfl⟩
    · cases hscalar
    · rw [hw] at hscalar
      cases hscalar
      exact ⟨_, rest, hleft, rfl, hsrc⟩
  unfold tokenAt at htoken
  split at htoken
  case h_7 =>
      obtain ⟨text, passed, hfst⟩ := fst_stringToken cs
      rw [htoken] at hfst
      cases hfst
      cases text with
      | error fault => cases hscalar
      | ok s =>
          cases hscalar
          obtain ⟨src, rest, hleft, rfl, hsrc⟩ := spells_of_stringToken htoken
          refine ⟨'"' :: (src ++ ['"']), rest, hleft, by simp, .string ?_⟩
          have hquoted := Quoted.mk hsrc
          rwa [String.ofList_toList] at hquoted
  case h_8 => exact hword .null rfl htoken
  case h_9 => exact hword .yes rfl htoken
  case h_10 => exact hword .no rfl htoken
  case h_11 =>
      obtain ⟨src, rest, n, hleft, rfl, hsrc, rfl⟩ := numeral_of_numberToken htoken hscalar
      exact ⟨'-' :: src, rest, hleft, rfl, .number (.mk .minus hsrc)⟩
  case h_12 =>
      split at htoken
      · obtain ⟨src, rest, n, hleft, hcs, hsrc, rfl⟩ := numeral_of_numberToken htoken hscalar
        exact ⟨src, rest, hleft, hcs, .number (.mk .none hsrc)⟩
      · cases htoken
        cases hscalar
  all_goals
    cases htoken
    cases hscalar

/-- A value that is no array and no object is one token, before anything
that a number cannot go on with. -/
theorem tokenAt_of_scalar {src tail : List Char} {v : Value} (h : Scalar src v)
    (hstop : Stops goesOn tail) : ∃ c cs t, src = c :: cs ∧ isLayout c = false ∧
      tokenAt c (cs ++ tail) = (t, some tail) ∧ scalar t = some (.ok v) := by
  cases h with
  | null => exact ⟨_, _, .null, rfl, rfl, rfl, rfl⟩
  | yes => exact ⟨_, _, .boolean true, rfl, rfl, rfl, rfl⟩
  | no => exact ⟨_, _, .boolean false, rfl, rfl, rfl, rfl⟩
  | number hnumeral =>
      cases hnumeral with
      | mk hsign hsrc =>
          have htoken := numberToken_of_unsigned hsrc hstop
          cases hsign with
          | none =>
              obtain ⟨d, ds, rfl, hd⟩ := hsrc.exists_eq_cons
              refine ⟨d, ds, .number (some _), rfl, isLayout_of_starts (.inr hd), ?_, rfl⟩
              rw [tokenAt_digit hd]
              exact htoken
          | minus => exact ⟨'-', _, .number (some _), rfl, rfl, htoken, rfl⟩
  | string hquoted =>
      cases hquoted with
      | @mk src text hspells =>
          have htoken := stringToken_of_spells hspells tail
          refine ⟨'"', src ++ ['"'], .ofText (String.ofList text), rfl, rfl, ?_, rfl⟩
          rw [List.append_assoc]
          exact htoken

end Grammar

end TemplateGate.Json
