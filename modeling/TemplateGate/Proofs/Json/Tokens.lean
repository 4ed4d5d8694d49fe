/-
# `Proofs.Json.Tokens` — printed values are read back

Between a value and its text stand the tokens it is written with
(`Value.tokens`).  They are the tokens of the printed text, in any layout
that breaks lines with white space (`tokens_print`), so of both layouts
(`Value.tokens_compact`, `Value.tokens_pretty`), and the reader makes the
value of them again (`value_tokens`).

Three things have to hold of the value, and they are what a text can
hold: its numbers read back, it is nested no deeper than a text may be,
and no object has two members with one key.
-/
import Mathlib.Data.List.Forall2
import TemplateGate.Proofs.Json.Numeral

namespace TemplateGate.Json

open Text

/-- Every number in a value is read back from its numeral.  Integers always are. -/
inductive Value.Legible : Value → Prop
  | null : Legible .null
  | boolean (b : Bool) : Legible (.boolean b)
  | integer (n : Int) (fits) : Legible (.number (.integer n fits))
  | double {d : Decimal.Double} : (Number.double d).ReadsBack → Legible (.number (.double d))
  | string (s : String) : Legible (.string s)
  | array {vs : List Value} : (∀ v ∈ vs, Legible v) → Legible (.array vs)
  | object {ms : Members} : (∀ m ∈ ms, Legible m.2) → Legible (.object ms)

mutual

/-- The tokens that a value is written with. -/
def Value.tokens : Value → List Token
  | .null => [.null]
  | .boolean b => [.boolean b]
  | .number n => [.number (some n)]
  | .string s => [.ofText s]
  | .array [] => [.openArray, .closeArray]
  | .array (v :: vs) => .openArray :: (v.tokens ++ (moreItemTokens vs ++ [.closeArray]))
  | .object [] => [.openObject, .closeObject]
  | .object ((k, v) :: ms) =>
      .openObject :: .ofText k :: .colon :: (v.tokens ++ (moreMemberTokens ms ++ [.closeObject]))

/-- The tokens of the items after the first. -/
def moreItemTokens : List Value → List Token
  | [] => []
  | v :: vs => .comma :: (v.tokens ++ moreItemTokens vs)

/-- The tokens of the members after the first. -/
def moreMemberTokens : List (String × Value) → List Token
  | [] => []
  | (k, v) :: ms => .comma :: .ofText k :: .colon :: (v.tokens ++ moreMemberTokens ms)

end

/-! ## From the text to its tokens -/

/-- What a layout puts between the tokens is white space. -/
structure Layout.Blank (l : Layout) : Prop where
  breakAt : ∀ level, ∀ c ∈ l.breakAt level, isLayout c = true
  gap : ∀ c ∈ l.gap, isLayout c = true

theorem Layout.blank_compact : Layout.compact.Blank :=
  ⟨fun _ _ h => absurd h List.not_mem_nil, fun _ h => absurd h List.not_mem_nil⟩

theorem Layout.blank_pretty : Layout.pretty.Blank := by
  refine ⟨fun level c h => ?_, fun c h => ?_⟩
  · rcases List.mem_cons.mp h with rfl | h
    · rfl
    · rw [List.eq_of_mem_replicate h]
      rfl
  · rw [List.mem_singleton.mp h]
    rfl

theorem tokens_openArray (cs : List Char) : tokens ('[' :: cs) = .openArray :: tokens cs :=
  tokens_cons rfl rfl

theorem tokens_closeArray (cs : List Char) : tokens (']' :: cs) = .closeArray :: tokens cs :=
  tokens_cons rfl rfl

theorem tokens_openObject (cs : List Char) : tokens ('{' :: cs) = .openObject :: tokens cs :=
  tokens_cons rfl rfl

theorem tokens_closeObject (cs : List Char) : tokens ('}' :: cs) = .closeObject :: tokens cs :=
  tokens_cons rfl rfl

theorem tokens_comma (cs : List Char) : tokens (',' :: cs) = .comma :: tokens cs :=
  tokens_cons rfl rfl

theorem tokens_colon (cs : List Char) : tokens (':' :: cs) = .colon :: tokens cs :=
  tokens_cons rfl rfl

theorem stops_layouts {cs rest : List Char} (h : ∀ c ∈ cs, isLayout c = true)
    (hrest : Stops goesOn rest) : Stops goesOn (cs ++ rest) := by
  cases cs with
  | nil => exact hrest
  | cons c cs =>
      refine stops_cons.mpr ?_
      rw [Bool.eq_false_iff]
      intro hgoes
      have hlayout := h c List.mem_cons_self
      rw [isLayout_of_goesOn hgoes] at hlayout
      cases hlayout

theorem stops_printItems {l : Layout} {level : Nat} {rest : List Char}
    (hrest : Stops goesOn rest) (vs : List Value) :
    Stops goesOn (printItems l level vs ++ rest) := by
  cases vs with
  | nil => exact hrest
  | cons _ _ => exact stops_cons.mpr rfl

theorem stops_printMembers {l : Layout} {level : Nat} {rest : List Char}
    (hrest : Stops goesOn rest) (ms : Members) :
    Stops goesOn (printMembers l level ms ++ rest) := by
  cases ms with
  | nil => exact hrest
  | cons _ _ => exact stops_cons.mpr rfl

mutual

/-- The tokens of a printed value are those it is written with. -/
theorem tokens_print {l : Layout} (hl : l.Blank) : ∀ {v : Value}, v.Legible →
    ∀ (level : Nat) {tail : List Char}, Stops goesOn tail →
      tokens (print l level v ++ tail) = v.tokens ++ tokens tail
  | .null, _, _, _, _ => tokens_cons rfl rfl
  | .boolean true, _, _, _, _ => tokens_cons rfl rfl
  | .boolean false, _, _, _, _ => tokens_cons rfl rfl
  | .number n, h, _, tail, hstop => by
      have hback : n.ReadsBack := by
        cases h with
        | integer n fits => exact Number.readsBack_integer n fits
        | double h => exact h
      exact tokens_printNumber hback hstop
  | .string s, _, _, tail, _ => tokens_printString s tail
  | .array [], _, _, tail, _ => by
      show tokens ('[' :: ']' :: tail) = _
      rw [tokens_openArray, tokens_closeArray]
      rfl
  | .array (v :: vs), h, level, tail, _ => by
      have hall : ∀ w ∈ v :: vs, w.Legible := by
        cases h with
        | array h => exact h
      have hclose : Stops goesOn (l.breakAt level ++ ']' :: tail) :=
        stops_layouts (hl.breakAt level) (stops_cons.mpr rfl)
      rw [print, List.cons_append, tokens_openArray]
      simp only [List.append_assoc, List.singleton_append]
      rw [tokens_layouts (hl.breakAt (level + 1)),
        tokens_print hl (hall v List.mem_cons_self) (level + 1) (stops_printItems hclose vs),
        tokens_printItems hl (fun w hw => hall w (List.mem_cons_of_mem v hw)) (level + 1) hclose,
        tokens_layouts (hl.breakAt level), tokens_closeArray]
      simp [Value.tokens]
  | .object [], _, _, tail, _ => by
      show tokens ('{' :: '}' :: tail) = _
      rw [tokens_openObject, tokens_closeObject]
      rfl
  | .object ((k, v) :: ms), h, level, tail, _ => by
      have hall : ∀ m ∈ (k, v) :: ms, m.2.Legible := by
        cases h with
        | object h => exact h
      have hv : v.Legible := hall (k, v) List.mem_cons_self
      have hclose : Stops goesOn (l.breakAt level ++ '}' :: tail) :=
        stops_layouts (hl.breakAt level) (stops_cons.mpr rfl)
      rw [print, List.cons_append, tokens_openObject]
      simp only [List.append_assoc, List.cons_append, List.nil_append]
      rw [tokens_layouts (hl.breakAt (level + 1)), tokens_printString, tokens_colon,
        tokens_layouts hl.gap,
        tokens_print hl hv (level + 1) (stops_printMembers hclose ms),
        tokens_printMembers hl (fun m hm => hall m (List.mem_cons_of_mem (k, v) hm)) (level + 1)
          hclose,
        tokens_layouts (hl.breakAt level), tokens_closeObject]
      simp [Value.tokens]

theorem tokens_printItems {l : Layout} (hl : l.Blank) : ∀ {vs : List Value},
    (∀ v ∈ vs, v.Legible) → ∀ (level : Nat) {tail : List Char}, Stops goesOn tail →
      tokens (printItems l level vs ++ tail) = moreItemTokens vs ++ tokens tail
  | [], _, _, _, _ => rfl
  | v :: vs, hall, level, tail, hstop => by
      rw [printItems, List.cons_append, tokens_comma]
      simp only [List.append_assoc]
      rw [tokens_layouts (hl.breakAt level),
        tokens_print hl (hall v List.mem_cons_self) level (stops_printItems hstop vs),
        tokens_printItems hl (fun w hw => hall w (List.mem_cons_of_mem v hw)) level hstop]
      simp [moreItemTokens]

theorem tokens_printMembers {l : Layout} (hl : l.Blank) : ∀ {ms : Members},
    (∀ m ∈ ms, m.2.Legible) → ∀ (level : Nat) {tail : List Char}, Stops goesOn tail →
      tokens (printMembers l level ms ++ tail) = moreMemberTokens ms ++ tokens tail
  | [], _, _, _, _ => rfl
  | (k, v) :: ms, hall, level, tail, hstop => by
      have hv : v.Legible := hall (k, v) List.mem_cons_self
      rw [printMembers, List.cons_append, tokens_comma]
      simp only [List.append_assoc, List.cons_append]
      rw [tokens_layouts (hl.breakAt level), tokens_printString, tokens_colon,
        tokens_layouts hl.gap,
        tokens_print hl hv level (stops_printMembers hstop ms),
        tokens_printMembers hl (fun m hm => hall m (List.mem_cons_of_mem (k, v) hm)) level hstop]
      simp [moreMemberTokens]

end

/-! ## From the tokens to the value -/

/-- Whether a value can begin with a token. -/
def Token.begins : Token → Bool
  | .closeArray => false
  | .closeObject => false
  | .comma => false
  | .colon => false
  | .broken _ _ => false
  | _ => true

theorem Value.tokens_eq_cons (v : Value) : ∃ t ts, v.tokens = t :: ts ∧ t.begins = true := by
  match v with
  | .null => exact ⟨_, _, rfl, rfl⟩
  | .boolean _ => exact ⟨_, _, rfl, rfl⟩
  | .number _ => exact ⟨_, _, rfl, rfl⟩
  | .string _ => exact ⟨_, _, rfl, rfl⟩
  | .array [] => exact ⟨_, _, rfl, rfl⟩
  | .array (_ :: _) => exact ⟨_, _, rfl, rfl⟩
  | .object [] => exact ⟨_, _, rfl, rfl⟩
  | .object (_ :: _) => exact ⟨_, _, rfl, rfl⟩

/-- The tokens between the brackets of an array. -/
def itemTokens : List Value → List Token
  | [] => []
  | v :: vs => v.tokens ++ moreItemTokens vs

/-- The tokens between the braces of an object. -/
def memberTokens : List (String × Value) → List Token
  | [] => []
  | (k, v) :: ms => .ofText k :: .colon :: (v.tokens ++ moreMemberTokens ms)

theorem Value.tokens_array (vs : List Value) (rest : List Token) :
    (Value.array vs).tokens ++ rest = .openArray :: (itemTokens vs ++ .closeArray :: rest) := by
  cases vs <;> simp [tokens, itemTokens]

theorem Value.tokens_object (ms : Members) (rest : List Token) :
    (Value.object ms).tokens ++ rest =
      .openObject :: (memberTokens ms ++ .closeObject :: rest) := by
  cases ms <;> simp [tokens, memberTokens]

theorem Value.tokens_object_eq (ms : Members) :
    (Value.object ms).tokens = .openObject :: (memberTokens ms ++ [.closeObject]) := by
  rw [← tokens_object, List.append_nil]

section Items

variable {α : Type} {item : List Token → Except Fault (α × List Token)}

/-- A reader of items reads one thing off the tokens of a value. -/
def ReadsAs (item : List Token → Except Fault (α × List Token)) (v : Value) (a : α) : Prop :=
  ∀ rest, item (v.tokens ++ rest) = .ok (a, rest)

/-- What is left of the tokens is fuel enough for the items in them. -/
theorem length_le_moreItemTokens (vs : List Value) (rest : List Token) :
    vs.length ≤ (moreItemTokens vs ++ rest).length := by
  induction vs with
  | nil => exact Nat.zero_le _
  | cons v vs ih =>
      simp only [moreItemTokens, List.length_cons, List.length_append] at ih ⊢
      omega

theorem moreItems_tokens {vs : List Value} {as : List α} (h : List.Forall₂ (ReadsAs item) vs as)
    (rest : List Token) : ∀ {fuel : Nat}, vs.length ≤ fuel →
      moreItems item fuel (moreItemTokens vs ++ .closeArray :: rest) = .ok (as, rest) := by
  induction h with
  | nil =>
      intro fuel _
      cases fuel <;> rfl
  | cons hv _ ih =>
      intro fuel hfuel
      match fuel with
      | fuel + 1 =>
          rw [moreItemTokens, List.cons_append, List.append_assoc, moreItems]
          rw [hv, bind_eq_ok_iff]
          exact ⟨_, rfl, bind_eq_ok_iff.mpr ⟨_, ih (Nat.le_of_succ_le_succ hfuel), rfl⟩⟩

theorem items_tokens {vs : List Value} {as : List α} (h : List.Forall₂ (ReadsAs item) vs as)
    (rest : List Token) :
    items item (itemTokens vs ++ .closeArray :: rest) = .ok (as, rest) := by
  cases h with
  | nil => rfl
  | @cons v a vs as hv hvs =>
      obtain ⟨t, ts, htokens, hbegins⟩ := v.tokens_eq_cons
      have hfuel := length_le_moreItemTokens vs (.closeArray :: rest)
      rw [itemTokens, List.append_assoc, items]
      · rw [hv, bind_eq_ok_iff]
        exact ⟨_, rfl, bind_eq_ok_iff.mpr ⟨_, moreItems_tokens hvs rest hfuel, rfl⟩⟩
      · intro rest' heq
        rw [htokens] at heq
        rw [(List.cons.inj heq).1] at hbegins
        cases hbegins

end Items

section Members

variable {σ : Type} {member : σ → String → List Token → Except Fault (σ × List Token)}

/-- A reader of members passes from one state to another over members that
are written one after the other. -/
inductive Runs (member : σ → String → List Token → Except Fault (σ × List Token)) :
    σ → Members → σ → Prop
  | nil {s : σ} : Runs member s [] s
  | cons {s s' s'' : σ} {k : String} {v : Value} {ms : Members} :
      (∀ rest, member s k (.colon :: (v.tokens ++ rest)) = .ok (s', rest)) →
        Runs member s' ms s'' → Runs member s ((k, v) :: ms) s''

theorem key_ofText (k : String) (rest : List Token) : key (.ofText k :: rest) = .ok (k, rest) := rfl

theorem length_le_moreMemberTokens (ms : Members) (rest : List Token) :
    ms.length ≤ (moreMemberTokens ms ++ rest).length := by
  induction ms with
  | nil => exact Nat.zero_le _
  | cons m ms ih =>
      simp only [moreMemberTokens, List.length_cons, List.length_append] at ih ⊢
      omega

theorem moreMembers_tokens {s s' : σ} {ms : Members} (h : Runs member s ms s')
    (rest : List Token) : ∀ {fuel : Nat}, ms.length ≤ fuel →
      moreMembers member fuel s (moreMemberTokens ms ++ .closeObject :: rest) = .ok (s', rest) := by
  induction h with
  | nil =>
      intro fuel _
      cases fuel <;> rfl
  | cons hmember _ ih =>
      intro fuel hfuel
      match fuel with
      | fuel + 1 =>
          simp only [moreMemberTokens, List.cons_append, List.append_assoc]
          rw [moreMembers]
          refine bind_eq_ok_iff.mpr ⟨_, key_ofText _ _, ?_⟩
          exact bind_eq_ok_iff.mpr ⟨_, hmember _, ih (Nat.le_of_succ_le_succ hfuel)⟩

theorem members_tokens {s s' : σ} {ms : Members} (h : Runs member s ms s') (rest : List Token) :
    members member s (memberTokens ms ++ .closeObject :: rest) = .ok (s', rest) := by
  cases h with
  | nil => rfl
  | @cons _ s'' _ k v ms hmember hms =>
      have hfuel := length_le_moreMemberTokens ms (.closeObject :: rest)
      simp only [memberTokens, List.cons_append, List.append_assoc]
      rw [members]
      · refine bind_eq_ok_iff.mpr ⟨_, key_ofText _ _, ?_⟩
        exact bind_eq_ok_iff.mpr ⟨_, hmember _, moreMembers_tokens hms rest hfuel⟩
      · exact fun _ heq => by cases heq

end Members

/-- Members under different keys are set one behind the other, each with
what its value is read as. -/
theorem runs_setMember {read : List Token → Except Fault (Value × List Token)}
    {ms ms' : Members}
    (h : List.Forall₂ (fun m m' => m'.1 = m.1 ∧ ReadsAs read m.2 m'.2) ms ms') :
    ∀ {acc : Members}, (acc.keys ++ ms.keys).Nodup → Runs (setMember read) acc ms (acc ++ ms') := by
  induction h with
  | nil =>
      intro acc _
      rw [List.append_nil]
      exact .nil
  | @cons m m' ms ms' hm _ ih =>
      intro acc hkeys
      obtain ⟨_, v⟩ := m
      obtain ⟨k, v'⟩ := m'
      obtain ⟨rfl, hv⟩ := hm
      rw [Members.keys, Members.keys, List.map_cons] at hkeys
      have hnew : k ∉ acc.keys := fun hk =>
        (List.nodup_append.mp hkeys).2.2 k hk k List.mem_cons_self rfl
      have hkeys' : (Members.keys (acc ++ [(k, v')]) ++ Members.keys ms).Nodup := by
        rw [Members.keys, Members.keys, List.map_append, List.append_assoc]
        exact hkeys
      have hrest := ih hkeys'
      rw [List.append_assoc, List.singleton_append] at hrest
      refine .cons (fun rest => ?_) hrest
      refine bind_eq_ok_iff.mpr ⟨_, rfl, bind_eq_ok_iff.mpr ⟨_, hv rest, ?_⟩⟩
      rw [← Members.set_of_not_mem hnew]

/-- The tokens of a value are read as the value. -/
theorem value_tokens {depth : Nat} : ∀ {v : Value}, v.depth ≤ depth → v.Distinct →
    ReadsAs (value depth) v v := by
  induction depth with
  | zero =>
      intro v hdepth hdistinct rest
      cases hdistinct with
      | array => exact absurd hdepth (Nat.not_succ_le_zero _)
      | object => exact absurd hdepth (Nat.not_succ_le_zero _)
      | _ => rfl
  | succ depth ih =>
      intro v hdepth hdistinct rest
      cases hdistinct with
      | @array vs hall =>
          have hdepths := depthItems_le_iff.mp (Nat.le_of_succ_le_succ hdepth)
          have hread : List.Forall₂ (ReadsAs (value depth)) vs vs :=
            List.forall₂_same.mpr fun v hv => ih (hdepths v hv) (hall v hv)
          rw [Value.tokens_array]
          exact bind_eq_ok_iff.mpr ⟨_, items_tokens hread rest, rfl⟩
      | @object ms hkeys hall =>
          have hdepths := depthMembers_le_iff.mp (Nat.le_of_succ_le_succ hdepth)
          have hread : Runs (setMember (value depth)) [] ms ms :=
            runs_setMember (List.forall₂_same.mpr fun m hm =>
              ⟨rfl, ih (hdepths m hm) (hall m hm)⟩) hkeys
          rw [Value.tokens_object]
          exact bind_eq_ok_iff.mpr ⟨_, members_tokens hread rest, rfl⟩
      | _ => rfl

/-! ## Printed values -/

/-- What a text can hold of values where it may go on by a number of levels:
what is nested no deeper, has no two members under one key, and has only
numbers that read back. -/
structure Value.Writable (v : Value) (depth : Nat) : Prop where
  depth_le : v.depth ≤ depth
  distinct : v.Distinct
  legible : v.Legible

namespace Value

theorem Writable.mono {v : Value} {depth depth' : Nat} (h : v.Writable depth)
    (hle : depth ≤ depth') : v.Writable depth' :=
  ⟨Nat.le_trans h.depth_le hle, h.distinct, h.legible⟩

theorem writable_string (s : String) (depth : Nat) : (Value.string s).Writable depth :=
  ⟨Nat.zero_le depth, .string s, .string s⟩

theorem writable_array {vs : List Value} {depth : Nat} (h : ∀ v ∈ vs, v.Writable depth) :
    (Value.array vs).Writable (depth + 1) where
  depth_le := Nat.succ_le_succ (depthItems_le_iff.mpr fun v hv => (h v hv).depth_le)
  distinct := .array fun v hv => (h v hv).distinct
  legible := .array fun v hv => (h v hv).legible

theorem writable_object {ms : Members} {depth : Nat} (hkeys : ms.keys.Nodup)
    (h : ∀ m ∈ ms, m.2.Writable depth) : (Value.object ms).Writable (depth + 1) where
  depth_le := Nat.succ_le_succ (depthMembers_le_iff.mpr fun m hm => (h m hm).depth_le)
  distinct := .object hkeys fun m hm => (h m hm).distinct
  legible := .object fun m hm => (h m hm).legible

theorem writable_singleton {key : String} {v : Value} {depth : Nat} (h : v.Writable depth) :
    (Value.object [(key, v)]).Writable (depth + 1) :=
  writable_object (List.pairwise_singleton _ key) (List.forall_mem_singleton.mpr h)

end Value

theorem tokens_print_zero {l : Layout} (hl : l.Blank) {v : Value} (h : v.Legible) :
    tokens (print l 0 v) = v.tokens := by
  have htokens := tokens_print hl h 0 stops_nil
  rwa [List.append_nil, tokens_nil, List.append_nil] at htokens

theorem Value.tokens_compact {v : Value} (h : v.Legible) :
    Json.tokens v.compact.toList = v.tokens := by
  rw [compact, String.toList_ofList, tokens_print_zero Layout.blank_compact h]

theorem Value.tokens_pretty {v : Value} (h : v.Legible) :
    Json.tokens v.pretty.toList = v.tokens := by
  rw [pretty, String.toList_ofList, tokens_print_zero Layout.blank_pretty h]

/-- A printed value is read back. -/
theorem parse_compact {v : Value} (h : v.Writable maxDepth) : parse v.compact = .ok v := by
  refine finish_eq_ok_iff.mpr ?_
  have hread := value_tokens h.depth_le h.distinct []
  rw [List.append_nil] at hread
  rw [Value.tokens_compact h.legible, hread]

end TemplateGate.Json
