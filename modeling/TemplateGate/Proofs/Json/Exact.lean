/-
# `Proofs.Json.Exact` — the reader reads the grammar

`parse` gives a value for a text exactly if the text is one of that value by
the grammar (`parse_eq_ok_iff`).  One half goes from the tokens back to the
text: what a reader has taken is the beginning of the text, and closes with
the white space before the next mark (`Leads.close`).  The other half reads
what the grammar writes; there the readers have to stop where they should,
and to leave enough tokens for the loops to count on (`Takes`).

Both halves are inductions on the depth, whose step is an induction on the
commas of an array or object.  Of an object nothing is assumed but that its
members are gathered one after the other (`foldMember`).
-/
import TemplateGate.Proofs.Json.Words

namespace TemplateGate.Json

open Grammar Text

/-! ## From the tokens to the text -/

/-- The character of a token that is a mark. -/
def Token.mark? : Token → Option Char
  | .openArray => some '['
  | .closeArray => some ']'
  | .openObject => some '{'
  | .closeObject => some '}'
  | .comma => some ','
  | .colon => some ':'
  | _ => none

theorem eq_of_tokenAt_mark {c m : Char} {cs : List Char} {left : Option (List Char)} {t : Token}
    (hmark : t.mark? = some m) (h : tokenAt c cs = (t, left)) : c = m ∧ left = some cs := by
  have hword : ∀ {token : Token} {word : List Char}, token.mark? = none →
      wordToken token word cs ≠ (t, left) := by
    intro token word hnone h
    rcases eq_of_wordToken h with ⟨_, _, rfl⟩ | ⟨_, _, rfl, _⟩
    · cases hmark
    · rw [hnone] at hmark
      cases hmark
  have hnumber : ∀ {negative : Bool} {cs : List Char}, numberToken negative cs ≠ (t, left) := by
    intro negative cs h
    rcases fst_numberToken negative cs with ⟨_, hfst⟩ | ⟨_, _, hfst⟩
    all_goals
      rw [h] at hfst
      cases hfst
      cases hmark
  unfold tokenAt at h
  split at h
  case h_7 =>
      obtain ⟨_, _, hfst⟩ := fst_stringToken cs
      rw [h] at hfst
      cases hfst
      cases hmark
  case h_8 | h_9 | h_10 => exact absurd h (hword rfl)
  case h_11 => exact absurd h hnumber
  case h_12 =>
      split at h
      · exact absurd h hnumber
      · cases h
        cases hmark
  all_goals
    cases h
    cases hmark
    exact ⟨rfl, rfl⟩

/-- The tokens of a text begin with its first character that is no white space. -/
theorem exists_of_tokens_cons {cs : List Char} {t : Token} {ts : List Token}
    (h : tokens cs = t :: ts) : ∃ before c rest left, cs = before ++ c :: rest ∧ Blank before ∧
      tokenAt c rest = (t, left) ∧ ts = left.elim [] tokens := by
  induction cs with
  | nil => cases h
  | cons c cs ih =>
      cases hlayout : isLayout c with
      | true =>
          rw [tokens_layout hlayout] at h
          obtain ⟨before, d, rest, left, rfl, hbefore, htoken, hts⟩ := ih h
          refine ⟨c :: before, d, rest, left, rfl, ?_, htoken, hts⟩
          exact List.forall_mem_cons.mpr ⟨isLayout_iff.mp hlayout, hbefore⟩
      | false =>
          rcases htoken : tokenAt c cs with ⟨t', left⟩
          cases left with
          | none =>
              rw [tokens_cons_none hlayout htoken] at h
              cases h
              exact ⟨[], c, cs, none, rfl, blank_nil, htoken, rfl⟩
          | some rest =>
              rw [tokens_cons hlayout htoken] at h
              cases h
              exact ⟨[], c, cs, some rest, rfl, blank_nil, htoken, rfl⟩

theorem exists_of_tokens_mark {cs : List Char} {t : Token} {m : Char} {ts : List Token}
    (hmark : t.mark? = some m) (h : tokens cs = t :: ts) :
    ∃ before rest, cs = before ++ m :: rest ∧ Blank before ∧ ts = tokens rest := by
  obtain ⟨before, c, rest, left, rfl, hbefore, htoken, rfl⟩ := exists_of_tokens_cons h
  obtain ⟨rfl, rfl⟩ := eq_of_tokenAt_mark hmark htoken
  exact ⟨before, rest, rfl, hbefore, rfl⟩

theorem exists_of_tokens_scalar {cs : List Char} {t : Token} {v : Value} {ts : List Token}
    (hscalar : scalar t = some (.ok v)) (h : tokens cs = t :: ts) :
    ∃ before src rest, cs = before ++ (src ++ rest) ∧ Blank before ∧ Scalar src v ∧
      ts = tokens rest := by
  obtain ⟨before, c, cs', left, rfl, hbefore, htoken, rfl⟩ := exists_of_tokens_cons h
  obtain ⟨src, rest, rfl, hcs, hsrc⟩ := scalar_of_tokenAt htoken hscalar
  exact ⟨before, src, rest, by rw [hcs], hbefore, hsrc, rfl⟩

/-! ## What has been read -/

section

variable {α : Type}

/-- What is written as given, with white space before it. -/
inductive Led (P : List Char → α → Prop) : List Char → α → Prop
  | mk {before src : List Char} {a : α} : Blank before → P src a → Led P (before ++ src) a

/-- A text begins with what is written as given, and has the tokens behind that. -/
inductive Leads (P : List Char → α → Prop) : List Char → α → List Token → Prop
  | mk {src : List Char} {a : α} (rest : List Char) : P src a →
      Leads P (src ++ rest) a (tokens rest)

variable {P Q : List Char → α → Prop} {a : α}

theorem Led.padded {src after : List Char} (h : Led P src a) (hafter : Blank after) :
    Padded P (src ++ after) a := by
  cases h with
  | mk hbefore hsrc =>
      rw [List.append_assoc]
      exact .mk hbefore hsrc hafter

/-- The white space before the next mark belongs to what has been read. -/
theorem Leads.close (hclose : ∀ {src after a}, P src a → Blank after → Q (src ++ after) a)
    {cs : List Char} {t : Token} {m : Char} {ts : List Token} (hmark : t.mark? = some m)
    (h : Leads P cs a (t :: ts)) :
    ∃ src rest, cs = src ++ m :: rest ∧ Q src a ∧ ts = tokens rest := by
  generalize htokens : t :: ts = ts' at h
  cases h with
  | @mk src _ rest hsrc =>
      obtain ⟨after, rest', rfl, hafter, rfl⟩ := exists_of_tokens_mark hmark htokens.symm
      exact ⟨src ++ after, rest', by rw [List.append_assoc], hclose hsrc hafter, rfl⟩

theorem blank_of_tokens {cs : List Char} (h : tokens cs = []) : Blank cs := by
  induction cs with
  | nil => exact blank_nil
  | cons c cs ih =>
      cases hlayout : isLayout c with
      | true =>
          rw [tokens_layout hlayout] at h
          exact List.forall_mem_cons.mpr ⟨isLayout_iff.mp hlayout, ih h⟩
      | false =>
          rcases htoken : tokenAt c cs with ⟨t, _ | rest⟩
          · rw [tokens_cons_none hlayout htoken] at h
            cases h
          · rw [tokens_cons hlayout htoken] at h
            cases h

theorem Leads.padded {cs : List Char} (h : Leads (Led P) cs a []) : Padded P cs a := by
  generalize htokens : [] = ts at h
  cases h with
  | mk rest hsrc => exact hsrc.padded (blank_of_tokens htokens.symm)

/-! ## Arrays -/

section

variable {item : List Token → Except Fault (α × List Token)}
  (hitem : ∀ {cs a ts}, item (tokens cs) = .ok (a, ts) → Leads (Led P) cs a ts)

include hitem

theorem listed_of_moreItems : ∀ {fuel : Nat} {cs : List Char} {a : α} {ts ts' : List Token}
    {as : List α}, Leads (Led P) cs a ts → moreItems item fuel ts = .ok (as, ts') →
      ∃ body rest, cs = body ++ ']' :: rest ∧ Listed (Padded P) body (a :: as) ∧
        ts' = tokens rest := by
  intro fuel cs a ts
  fun_induction moreItems item fuel ts generalizing cs a with
  | case1 fuel ts =>
      intro ts' as hlead h
      cases h
      obtain ⟨src, rest, rfl, hsrc, hrest⟩ := hlead.close Led.padded rfl
      exact ⟨src, rest, rfl, .one hsrc, hrest⟩
  | case2 fuel ts ih =>
      intro ts' as hlead h
      obtain ⟨⟨a', ts₁⟩, ha, h⟩ := bind_eq_ok_iff.mp h
      obtain ⟨⟨as', ts₂⟩, has, h⟩ := bind_eq_ok_iff.mp h
      cases h
      obtain ⟨src, rest, rfl, hsrc, rfl⟩ := hlead.close Led.padded rfl
      obtain ⟨body, rest', rfl, hbody, hrest⟩ := ih _ (hitem ha) has
      exact ⟨src ++ ',' :: body, rest', by simp, .more hsrc hbody, hrest⟩
  | case3 => exact fun _ h => by cases h

theorem enclosed_of_items {cs : List Char} {ts : List Token} {as : List α}
    (h : items item (tokens cs) = .ok (as, ts)) :
    ∃ body rest, cs = body ++ ']' :: rest ∧ Enclosed (Padded P) body as ∧ ts = tokens rest := by
  generalize htokens : tokens cs = ts₀ at h
  unfold items at h
  split at h
  · cases h
    obtain ⟨before, rest, rfl, hbefore, hrest⟩ := exists_of_tokens_mark rfl htokens
    exact ⟨before, rest, rfl, .blank hbefore, hrest⟩
  · obtain ⟨⟨a, ts₁⟩, ha, h⟩ := bind_eq_ok_iff.mp h
    obtain ⟨⟨as', ts₂⟩, has, h⟩ := bind_eq_ok_iff.mp h
    cases h
    rw [← htokens] at ha
    obtain ⟨body, rest, hcs, hbody, hrest⟩ := listed_of_moreItems hitem (hitem ha) has
    exact ⟨body, rest, hcs, .listed hbody, hrest⟩

end

end

/-! ## Objects -/

section

variable {P : List Char → Value → Prop}

theorem Member.close {src after : List Char} {m : String × Value} (h : Member (Led P) src m)
    (hafter : Blank after) : Member (Padded P) (src ++ after) m := by
  cases h with
  | mk hname hsrc =>
      rw [List.append_assoc, List.cons_append]
      exact .mk hname (hsrc.padded hafter)

theorem leads_of_key {cs : List Char} {k : String} {ts : List Token}
    (h : key (tokens cs) = .ok (k, ts)) : Leads (Led Quoted) cs k ts := by
  obtain ⟨passed, htokens⟩ := eq_of_key h
  obtain ⟨before, src, rest, rfl, hbefore, hsrc, rfl⟩ := exists_of_tokens_scalar rfl htokens
  cases hsrc with
  | string hquoted =>
      rw [← List.append_assoc]
      exact .mk rest (.mk hbefore hquoted)

theorem eq_of_afterColon {ts rest : List Token} (h : afterColon ts = .ok rest) :
    ts = .colon :: rest := by
  unfold afterColon at h
  split at h
  · cases h
    rfl
  · cases h

/-- One member of an object whose values are read by the given reader: its
value is read, and what has been gathered goes on with the member. -/
def foldMember {σ : Type} (step : σ → String × Value → σ)
    (read : List Token → Except Fault (Value × List Token)) (acc : σ) (k : String)
    (ts : List Token) : Except Fault (σ × List Token) := do
  let (v, rest) ← read (← afterColon ts)
  .ok (step acc (k, v), rest)

theorem setMember_eq_foldMember (read : List Token → Except Fault (Value × List Token)) :
    setMember read = foldMember (fun acc m => acc.set m.1 m.2) read := rfl

variable {σ : Type} {step : σ → String × Value → σ}
  {read : List Token → Except Fault (Value × List Token)}
  (hread : ∀ {cs v ts}, read (tokens cs) = .ok (v, ts) → Leads (Led P) cs v ts)

include hread

theorem leads_of_foldMember {cs : List Char} {k : String} {acc acc' : σ}
    {ts ts' : List Token} (hkey : key (tokens cs) = .ok (k, ts))
    (h : foldMember step read acc k ts = .ok (acc', ts')) :
    ∃ v, Leads (Member (Led P)) cs (k, v) ts' ∧ acc' = step acc (k, v) := by
  obtain ⟨ts₁, hcolon, h⟩ := bind_eq_ok_iff.mp h
  obtain ⟨⟨v, ts₂⟩, hv, h⟩ := bind_eq_ok_iff.mp h
  cases h
  obtain rfl := eq_of_afterColon hcolon
  obtain ⟨name, rest, rfl, hname, rfl⟩ := (leads_of_key hkey).close Led.padded rfl
  refine ⟨v, ?_, rfl⟩
  cases hread hv with
  | mk rest hsrc =>
      have hmember := Leads.mk rest (Member.mk hname hsrc)
      rwa [List.append_assoc] at hmember

theorem listed_of_moreMembers : ∀ {fuel : Nat} {acc acc' : σ} {cs : List Char}
    {m : String × Value} {ts ts' : List Token}, Leads (Member (Led P)) cs m ts →
      moreMembers (foldMember step read) fuel acc ts = .ok (acc', ts') →
      ∃ body rest ms, cs = body ++ '}' :: rest ∧ Listed (Member (Padded P)) body (m :: ms) ∧
        acc' = ms.foldl step acc ∧ ts' = tokens rest := by
  intro fuel acc acc' cs m ts
  fun_induction moreMembers (foldMember step read) fuel acc ts generalizing cs m with
  | case1 fuel acc ts =>
      intro ts' hlead h
      cases h
      obtain ⟨src, rest, rfl, hsrc, hrest⟩ := hlead.close Member.close rfl
      exact ⟨src, rest, [], rfl, .one hsrc, rfl, hrest⟩
  | case2 fuel acc ts ih =>
      intro ts' hlead h
      obtain ⟨⟨k, ts₁⟩, hkey, h⟩ := bind_eq_ok_iff.mp h
      obtain ⟨⟨acc₁, ts₂⟩, hmember, h⟩ := bind_eq_ok_iff.mp h
      obtain ⟨src, rest, rfl, hsrc, rfl⟩ := hlead.close Member.close rfl
      obtain ⟨v, hlead', rfl⟩ := leads_of_foldMember hread hkey hmember
      obtain ⟨body, rest', ms, rfl, hbody, rfl, hrest⟩ := ih _ _ hlead' h
      exact ⟨src ++ ',' :: body, rest', (k, v) :: ms, by simp, .more hsrc hbody, rfl, hrest⟩
  | case3 => exact fun _ h => by cases h

theorem enclosed_of_members {cs : List Char} {ts : List Token} {start acc : σ}
    (h : members (foldMember step read) start (tokens cs) = .ok (acc, ts)) :
    ∃ body rest ms, cs = body ++ '}' :: rest ∧ Enclosed (Member (Padded P)) body ms ∧
      acc = ms.foldl step start ∧ ts = tokens rest := by
  generalize htokens : tokens cs = ts₀ at h
  unfold members at h
  split at h
  · cases h
    obtain ⟨before, rest, rfl, hbefore, hrest⟩ := exists_of_tokens_mark rfl htokens
    exact ⟨before, rest, [], rfl, .blank hbefore, rfl, hrest⟩
  · obtain ⟨⟨k, ts₁⟩, hkey, h⟩ := bind_eq_ok_iff.mp h
    obtain ⟨⟨acc, ts₂⟩, hmember, h⟩ := bind_eq_ok_iff.mp h
    rw [← htokens] at hkey
    obtain ⟨v, hlead, rfl⟩ := leads_of_foldMember hread hkey hmember
    obtain ⟨body, rest, ms, hcs, hbody, rfl, hrest⟩ := listed_of_moreMembers hread hlead h
    exact ⟨body, rest, (k, v) :: ms, hcs, .listed hbody, rfl, hrest⟩

end

/-! ## Values -/

/-- A value that is read is written in the text, behind white space. -/
theorem leads_of_value {depth : Nat} : ∀ {cs : List Char} {v : Value} {ts : List Token},
    value depth (tokens cs) = .ok (v, ts) → Leads (Led (Grammar.Denotes depth)) cs v ts := by
  have hscalar : ∀ {depth : Nat} {cs : List Char} {t : Token} {v : Value} {ts : List Token},
      (∀ {src}, Scalar src v → Grammar.Denotes depth src v) → tokens cs = t :: ts →
      scalar t = some (.ok v) → Leads (Led (Grammar.Denotes depth)) cs v ts := by
    intro depth cs t v ts hdenotes htokens hscalar
    obtain ⟨before, src, rest, rfl, hbefore, hsrc, rfl⟩ := exists_of_tokens_scalar hscalar htokens
    rw [← List.append_assoc]
    exact .mk rest (.mk hbefore (hdenotes hsrc))
  induction depth with
  | zero =>
      intro cs v ts h
      rcases value_cases h with ⟨t, htokens, ht⟩ | ⟨_, _, _, hdepth, _⟩ | ⟨_, _, _, hdepth, _⟩
      · exact hscalar id htokens ht
      · cases hdepth
      · cases hdepth
  | succ depth ih =>
      intro cs v ts h
      rcases value_cases h with ⟨t, htokens, ht⟩ | ⟨inner, ts', vs, hdepth, htokens, hitems, rfl⟩ |
        ⟨inner, ts', ms, hdepth, htokens, hmembers, rfl⟩
      · exact hscalar .scalar htokens ht
      · cases hdepth
        obtain ⟨before, rest, rfl, hbefore, rfl⟩ := exists_of_tokens_mark rfl htokens
        obtain ⟨body, rest', rfl, hbody, rfl⟩ := enclosed_of_items ih hitems
        have hsrc : Grammar.Denotes (depth + 1) ('[' :: (body ++ [']'])) (.array vs) := .array hbody
        have hlead := Leads.mk rest' (Led.mk hbefore hsrc)
        simpa using hlead
      · cases hdepth
        obtain ⟨before, rest, rfl, hbefore, rfl⟩ := exists_of_tokens_mark rfl htokens
        rw [setMember_eq_foldMember] at hmembers
        obtain ⟨body, rest', ms', rfl, hbody, rfl, rfl⟩ := enclosed_of_members ih hmembers
        have hsrc : Grammar.Denotes (depth + 1) ('{' :: (body ++ ['}'])) _ := .object hbody
        have hlead := Leads.mk rest' (Led.mk hbefore hsrc)
        simpa [Members.setAll] using hlead

/-! ## From the text to the value -/

/-- A reader takes what is written, before anything that a number cannot go
on with, and that is at least one token. -/
def Takes {α : Type} (item : List Token → Except Fault (α × List Token)) (src : List Char)
    (a : α) : Prop :=
  ∀ tail : List Char, Stops goesOn tail → item (tokens (src ++ tail)) = .ok (a, tokens tail) ∧
    (tokens tail).length < (tokens (src ++ tail)).length

section

variable {α : Type} {P : List Char → α → Prop} {item : List Token → Except Fault (α × List Token)}

theorem Takes.padded (hitem : ∀ {src a}, P src a → Takes item src a) {src : List Char} {a : α}
    (h : Padded P src a) : Takes item src a := by
  intro tail hstop
  cases h with
  | @mk before src after _ hbefore hsrc hafter =>
      have htakes := hitem hsrc (after ++ tail) (stops_layouts hafter.isLayout hstop)
      rw [tokens_layouts hafter.isLayout] at htakes
      rwa [List.append_assoc, List.append_assoc, tokens_layouts hbefore.isLayout]

/-- The items of a list are read behind a comma.  Each is a token at least, so
that the tokens which are left are rounds enough. -/
theorem moreItems_of_listed (hitem : ∀ {src a}, P src a → Takes item src a) {body : List Char}
    {as : List α} (h : Listed P body as) (tail : List Char) :
    (∀ {fuel : Nat}, as.length ≤ fuel →
      moreItems item fuel (tokens (',' :: (body ++ ']' :: tail))) = .ok (as, tokens tail)) ∧
    as.length + (tokens tail).length < (tokens (',' :: (body ++ ']' :: tail))).length := by
  induction h with
  | @one src a hsrc =>
      obtain ⟨hread, hlength⟩ := hitem hsrc (']' :: tail) (stops_cons.mpr rfl)
      rw [tokens_closeArray] at hread hlength
      rw [tokens_comma]
      constructor
      · intro fuel hfuel
        cases fuel with
        | zero => exact absurd hfuel (Nat.not_succ_le_zero _)
        | succ fuel =>
            rw [moreItems]
            refine bind_eq_ok_iff.mpr ⟨_, hread, ?_⟩
            refine bind_eq_ok_iff.mpr ⟨([], tokens tail), ?_, rfl⟩
            cases fuel <;> rfl
      · simp only [List.length_cons, List.length_nil] at hlength ⊢
        omega
  | @more src srcs a as hsrc _ ih =>
      obtain ⟨hmore, hlength'⟩ := ih
      obtain ⟨hread, hlength⟩ :=
        hitem hsrc (',' :: (srcs ++ ']' :: tail)) (stops_cons.mpr rfl)
      rw [List.append_assoc, List.cons_append, tokens_comma]
      constructor
      · intro fuel hfuel
        cases fuel with
        | zero => exact absurd hfuel (Nat.not_succ_le_zero _)
        | succ fuel =>
            rw [moreItems]
            refine bind_eq_ok_iff.mpr ⟨_, hread, ?_⟩
            exact bind_eq_ok_iff.mpr ⟨_, hmore (Nat.le_of_succ_le_succ hfuel), rfl⟩
      · simp only [List.length_cons]
        omega

theorem items_of_enclosed (hitem : ∀ {src a}, P src a → Takes item src a)
    (hopen : ∀ {ts r}, item (.closeArray :: ts) ≠ .ok r) {body : List Char} {as : List α}
    (h : Enclosed P body as) (tail : List Char) :
    items item (tokens (body ++ ']' :: tail)) = .ok (as, tokens tail) ∧
      (tokens tail).length < (tokens (body ++ ']' :: tail)).length := by
  -- What is no closing bracket is an item, and more of them.
  have hitems : ∀ {cs rest : List Char} {a : α} {as : List α},
      item (tokens cs) = .ok (a, tokens rest) →
      moreItems item (tokens rest).length (tokens rest) = .ok (as, tokens tail) →
      items item (tokens cs) = .ok (a :: as, tokens tail) := by
    intro cs rest a as hread hmore
    rw [items]
    · exact bind_eq_ok_iff.mpr ⟨_, hread, bind_eq_ok_iff.mpr ⟨_, hmore, rfl⟩⟩
    · intro ts heq
      rw [heq] at hread
      exact hopen hread
  cases h with
  | blank hblank =>
      rw [tokens_layouts hblank.isLayout, tokens_closeArray]
      exact ⟨rfl, Nat.lt_succ_self _⟩
  | listed hbody =>
      cases hbody with
      | one hsrc =>
          obtain ⟨hread, hlength⟩ := hitem hsrc (']' :: tail) (stops_cons.mpr rfl)
          have hnone : moreItems item (tokens (']' :: tail)).length (tokens (']' :: tail)) =
              .ok ([], tokens tail) := by
            rw [tokens_closeArray]
            rfl
          refine ⟨hitems hread hnone, ?_⟩
          rw [tokens_closeArray, List.length_cons] at hlength
          omega
      | @more src srcs a as hsrc hsrcs =>
          obtain ⟨hread, hlength⟩ :=
            hitem hsrc (',' :: (srcs ++ ']' :: tail)) (stops_cons.mpr rfl)
          obtain ⟨hmore, hlength'⟩ := moreItems_of_listed hitem hsrcs tail
          rw [List.append_assoc, List.cons_append]
          exact ⟨hitems hread (hmore (by omega)), by omega⟩

end

theorem tokens_of_quoted {src : List Char} {s : String} (h : Quoted src s) (tail : List Char) :
    tokens (src ++ tail) = .ofText s :: tokens tail := by
  cases h with
  | mk hspells =>
      rw [List.cons_append, List.append_assoc]
      exact tokens_cons rfl (stringToken_of_spells hspells tail)

theorem takes_key {name : List Char} {k : String} (h : Quoted name k) : Takes key name k := by
  intro tail _
  rw [tokens_of_quoted h]
  exact ⟨rfl, Nat.lt_succ_self _⟩

section

variable {P : List Char → Value → Prop} {read : List Token → Except Fault (Value × List Token)}
  {σ : Type} {step : σ → String × Value → σ}

theorem key_of_member (hread : ∀ {src v}, P src v → Takes read src v) {src : List Char}
    {m : String × Value} (h : Member P src m) (tail : List Char) (hstop : Stops goesOn tail) :
    ∃ ts, key (tokens (src ++ tail)) = .ok (m.1, ts) ∧
      (∀ acc : σ, foldMember step read acc m.1 ts = .ok (step acc m, tokens tail)) ∧
      (tokens tail).length < (tokens (src ++ tail)).length := by
  cases h with
  | @mk name src k v hname hsrc =>
      obtain ⟨hvalue, hlength⟩ := hread hsrc tail hstop
      obtain ⟨hkey, hlength'⟩ :=
        Takes.padded takes_key hname (':' :: (src ++ tail)) (stops_cons.mpr rfl)
      rw [tokens_colon] at hkey hlength'
      rw [List.append_assoc, List.cons_append]
      refine ⟨_, hkey, fun acc => ?_, ?_⟩
      · exact bind_eq_ok_iff.mpr ⟨_, rfl, bind_eq_ok_iff.mpr ⟨_, hvalue, rfl⟩⟩
      · rw [List.length_cons] at hlength'
        omega

theorem moreMembers_of_listed (hread : ∀ {src v}, P src v → Takes read src v) {body : List Char}
    {ms : Members} (h : Listed (Member P) body ms) (tail : List Char) :
    (∀ {fuel : Nat} {acc : σ}, ms.length ≤ fuel →
      moreMembers (foldMember step read) fuel acc (tokens (',' :: (body ++ '}' :: tail))) =
        .ok (ms.foldl step acc, tokens tail)) ∧
    ms.length + (tokens tail).length < (tokens (',' :: (body ++ '}' :: tail))).length := by
  induction h with
  | @one src m hsrc =>
      obtain ⟨ts, hkey, hset, hlength⟩ :=
        key_of_member hread hsrc ('}' :: tail) (stops_cons.mpr rfl)
      rw [tokens_closeObject] at hset hlength
      rw [tokens_comma]
      constructor
      · intro fuel acc hfuel
        cases fuel with
        | zero => exact absurd hfuel (Nat.not_succ_le_zero _)
        | succ fuel =>
            rw [moreMembers]
            refine bind_eq_ok_iff.mpr ⟨_, hkey, bind_eq_ok_iff.mpr ⟨_, hset acc, ?_⟩⟩
            cases fuel <;> rfl
      · simp only [List.length_cons, List.length_nil] at hlength ⊢
        omega
  | @more src srcs m ms hsrc _ ih =>
      obtain ⟨hmore, hlength'⟩ := ih
      obtain ⟨ts, hkey, hset, hlength⟩ :=
        key_of_member hread hsrc (',' :: (srcs ++ '}' :: tail)) (stops_cons.mpr rfl)
      rw [List.append_assoc, List.cons_append, tokens_comma]
      constructor
      · intro fuel acc hfuel
        cases fuel with
        | zero => exact absurd hfuel (Nat.not_succ_le_zero _)
        | succ fuel =>
            rw [moreMembers]
            refine bind_eq_ok_iff.mpr ⟨_, hkey, bind_eq_ok_iff.mpr ⟨_, hset acc, ?_⟩⟩
            exact hmore (Nat.le_of_succ_le_succ hfuel)
      · simp only [List.length_cons]
        omega

theorem members_of_enclosed (hread : ∀ {src v}, P src v → Takes read src v) {body : List Char}
    {ms : Members} (h : Enclosed (Member P) body ms) (start : σ) (tail : List Char) :
    members (foldMember step read) start (tokens (body ++ '}' :: tail)) =
        .ok (ms.foldl step start, tokens tail) ∧
      (tokens tail).length < (tokens (body ++ '}' :: tail)).length := by
  -- What has a key is no closing brace.
  have hmembers : ∀ {cs : List Char} {m : String × Value} {ts ts' : List Token} {acc : σ},
      key (tokens cs) = .ok (m.1, ts) →
      foldMember step read start m.1 ts = .ok (step start m, ts') →
      moreMembers (foldMember step read) ts'.length (step start m) ts' = .ok (acc, tokens tail) →
      members (foldMember step read) start (tokens cs) = .ok (acc, tokens tail) := by
    intro cs m ts ts' acc hkey hset hmore
    rw [members]
    · exact bind_eq_ok_iff.mpr ⟨_, hkey, bind_eq_ok_iff.mpr ⟨_, hset, hmore⟩⟩
    · intro ts heq
      rw [heq] at hkey
      cases hkey
  cases h with
  | blank hblank =>
      rw [tokens_layouts hblank.isLayout, tokens_closeObject]
      exact ⟨rfl, Nat.lt_succ_self _⟩
  | listed hbody =>
      cases hbody with
      | @one src m hsrc =>
          obtain ⟨ts, hkey, hset, hlength⟩ :=
            key_of_member hread hsrc ('}' :: tail) (stops_cons.mpr rfl)
          rw [tokens_closeObject] at hset hlength
          refine ⟨hmembers hkey (hset start) rfl, ?_⟩
          rw [List.length_cons] at hlength
          omega
      | @more src srcs m ms hsrc hsrcs =>
          obtain ⟨ts, hkey, hset, hlength⟩ :=
            key_of_member hread hsrc (',' :: (srcs ++ '}' :: tail)) (stops_cons.mpr rfl)
          obtain ⟨hmore, hlength'⟩ := moreMembers_of_listed hread hsrcs tail
          rw [List.append_assoc, List.cons_append]
          exact ⟨hmembers hkey (hset start) (hmore (by omega)), by omega⟩

end

theorem value_of_scalar {t : Token} {v : Value} (h : scalar t = some (.ok v)) (depth : Nat)
    (rest : List Token) : value depth (t :: rest) = .ok (v, rest) := by
  unfold value
  split
  · rename_i heq
    cases heq
    cases h
  · rename_i heq
    cases heq
    cases h
  · rename_i heq
    cases heq
    rw [h]
    rfl
  · rename_i heq
    cases heq

theorem value_closeArray (depth : Nat) (ts : List Token) :
    value depth (.closeArray :: ts) = .error .malformed := by
  rw [value.eq_def]
  rfl

theorem takes_scalar {src : List Char} {v : Value} (h : Scalar src v) (depth : Nat) :
    Takes (value depth) src v := by
  intro tail hstop
  obtain ⟨c, cs, t, rfl, hlayout, htoken, hscalar⟩ := tokenAt_of_scalar h hstop
  rw [List.cons_append, tokens_cons hlayout htoken]
  exact ⟨value_of_scalar hscalar depth _, Nat.lt_succ_self _⟩

/-- What is written as the grammar has it is read. -/
theorem takes_value {depth : Nat} : ∀ {src : List Char} {v : Value},
    Grammar.Denotes depth src v → Takes (value depth) src v := by
  induction depth with
  | zero => exact fun h => takes_scalar h 0
  | succ depth ih =>
      intro src v h
      have hpadded : ∀ {src v}, Padded (Grammar.Denotes depth) src v → Takes (value depth) src v :=
        Takes.padded ih
      have hopen : ∀ {ts r}, value depth (.closeArray :: ts) ≠ .ok r := by
        intro ts r h
        rw [value_closeArray] at h
        cases h
      cases h with
      | scalar hscalar => exact takes_scalar hscalar _
      | @array body vs hbody =>
          intro tail _
          obtain ⟨hitems, hlength⟩ := items_of_enclosed hpadded hopen hbody tail
          rw [List.cons_append, List.append_assoc, tokens_openArray, List.singleton_append]
          refine ⟨bind_eq_ok_iff.mpr ⟨_, hitems, rfl⟩, ?_⟩
          rw [List.length_cons]
          omega
      | @object body ms hbody =>
          intro tail _
          obtain ⟨hmembers, hlength⟩ := members_of_enclosed hpadded hbody [] tail
          rw [← setMember_eq_foldMember] at hmembers
          rw [List.cons_append, List.append_assoc, tokens_openObject, List.singleton_append]
          refine ⟨bind_eq_ok_iff.mpr ⟨_, hmembers, rfl⟩, ?_⟩
          rw [List.length_cons]
          omega

/-! ## Texts -/

/-- A reader that finds what is written and takes it reads a whole text
exactly if the text is a way to write something, with white space around it. -/
theorem finish_eq_ok_iff_padded {α : Type} {P : List Char → α → Prop}
    {item : List Token → Except Fault (α × List Token)}
    (hleads : ∀ {cs a ts}, item (tokens cs) = .ok (a, ts) → Leads (Led P) cs a ts)
    (htakes : ∀ {src a}, P src a → Takes item src a) {cs : List Char} {a : α} :
    finish (item (tokens cs)) = .ok a ↔ Padded P cs a := by
  rw [finish_eq_ok_iff]
  constructor
  · intro h
    exact (hleads h).padded
  · intro h
    have hread := Takes.padded htakes h [] stops_nil
    rw [List.append_nil] at hread
    exact hread.1

/-- A value is read off a text exactly if the text is one of it. -/
theorem parse_eq_ok_iff {text : String} {v : Value} : parse text = .ok v ↔ TextOf v text :=
  finish_eq_ok_iff_padded leads_of_value takes_value

end TemplateGate.Json
