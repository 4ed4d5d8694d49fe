/-
# `Proofs.Json.Reader` — what the reader makes of tokens

Whatever the tokens are, a value that has been read is nested no deeper
than the reader was allowed to go, and no object in it has two members
with one key (`Distinct`), because a member that is set again takes the
place of the first.  Both are carried through the loops over items and
members by two lemmas that know nothing of values (`forall_of_items`,
`invariant_of_members`).
-/
import TemplateGate.Json.Reader
import TemplateGate.Proofs.Json.Members

namespace TemplateGate.Json

/-! ## Loops -/

theorem bind_eq_ok_iff {ε α β : Type} {x : Except ε α} {f : α → Except ε β} {b : β} :
    x >>= f = .ok b ↔ ∃ a, x = .ok a ∧ f a = .ok b := by
  cases x with
  | error e =>
      refine ⟨(fun h => by cases h), ?_⟩
      rintro ⟨_, ha, _⟩
      cases ha
  | ok a =>
      refine ⟨fun h => ⟨a, rfl, h⟩, ?_⟩
      rintro ⟨_, ha, h⟩
      cases ha
      exact h

section Items

variable {α : Type} {item : List Token → Except Fault (α × List Token)} {P : α → Prop}

theorem forall_of_moreItems (hitem : ∀ {ts a rest}, item ts = .ok (a, rest) → P a) :
    ∀ {fuel : Nat} {ts : List Token} {as : List α} {rest : List Token},
      moreItems item fuel ts = .ok (as, rest) → ∀ a ∈ as, P a := by
  intro fuel ts
  fun_induction moreItems item fuel ts with
  | case1 =>
      intro as rest h
      cases h
      exact fun a ha => by cases ha
  | case2 fuel ts ih =>
      intro as rest h
      obtain ⟨⟨a, rest'⟩, ha, h⟩ := bind_eq_ok_iff.mp h
      obtain ⟨⟨as', rest''⟩, has, h⟩ := bind_eq_ok_iff.mp h
      cases h
      exact List.forall_mem_cons.mpr ⟨hitem ha, ih _ has⟩
  | case3 => exact fun h => by cases h

/-- What holds of every item that can be read holds of the items of an array. -/
theorem forall_of_items (hitem : ∀ {ts a rest}, item ts = .ok (a, rest) → P a)
    {ts : List Token} {as : List α} {rest : List Token} (h : items item ts = .ok (as, rest)) :
    ∀ a ∈ as, P a := by
  unfold items at h
  split at h
  · cases h
    exact fun a ha => by cases ha
  · obtain ⟨⟨a, rest'⟩, ha, h⟩ := bind_eq_ok_iff.mp h
    obtain ⟨⟨as', rest''⟩, has, h⟩ := bind_eq_ok_iff.mp h
    cases h
    exact List.forall_mem_cons.mpr ⟨hitem ha, forall_of_moreItems hitem has⟩

end Items

section Members

variable {σ : Type} {member : σ → String → List Token → Except Fault (σ × List Token)}
  {I : σ → Prop}

theorem invariant_of_moreMembers
    (hmember : ∀ {s k ts s' rest}, member s k ts = .ok (s', rest) → I s → I s') :
    ∀ {fuel : Nat} {s s' : σ} {ts rest : List Token},
      moreMembers member fuel s ts = .ok (s', rest) → I s → I s' := by
  intro fuel s s' ts
  fun_induction moreMembers member fuel s ts with
  | case1 =>
      intro rest h hs
      cases h
      exact hs
  | case2 fuel s ts ih =>
      intro rest h hs
      obtain ⟨⟨k, rest'⟩, _, h⟩ := bind_eq_ok_iff.mp h
      obtain ⟨⟨s'', rest''⟩, hs', h⟩ := bind_eq_ok_iff.mp h
      exact ih s'' rest'' h (hmember hs' hs)
  | case3 =>
      intro rest h
      cases h

/-- What every member keeps is kept by the members of an object. -/
theorem invariant_of_members
    (hmember : ∀ {s k ts s' rest}, member s k ts = .ok (s', rest) → I s → I s')
    {s s' : σ} {ts rest : List Token} (h : members member s ts = .ok (s', rest)) (hs : I s) :
    I s' := by
  unfold members at h
  split at h
  · cases h
    exact hs
  · obtain ⟨⟨k, rest'⟩, _, h⟩ := bind_eq_ok_iff.mp h
    obtain ⟨⟨s'', rest''⟩, hs', h⟩ := bind_eq_ok_iff.mp h
    exact invariant_of_moreMembers hmember h (hmember hs' hs)

end Members

/-! ## Values that can be read -/

/-- No object in a value has two members with one key. -/
inductive Value.Distinct : Value → Prop
  | null : Distinct .null
  | boolean (b : Bool) : Distinct (.boolean b)
  | number (n : Number) : Distinct (.number n)
  | string (s : String) : Distinct (.string s)
  | array {vs : List Value} : (∀ v ∈ vs, Distinct v) → Distinct (.array vs)
  | object {ms : Members} : ms.keys.Nodup → (∀ m ∈ ms, Distinct m.2) → Distinct (.object ms)

theorem depthItems_le_iff {n : Nat} {vs : List Value} :
    Value.depthItems vs ≤ n ↔ ∀ v ∈ vs, v.depth ≤ n := by
  induction vs with
  | nil => simp [Value.depthItems]
  | cons v vs ih => rw [Value.depthItems, Nat.max_le, ih, List.forall_mem_cons]

theorem depthMembers_le_iff {n : Nat} {ms : Members} :
    Value.depthMembers ms ≤ n ↔ ∀ m ∈ ms, m.2.depth ≤ n := by
  induction ms with
  | nil => simp [Value.depthMembers]
  | cons m ms ih => rw [Value.depthMembers, Nat.max_le, ih, List.forall_mem_cons]

/-- One member of an object whose values are read by the given reader: its
value is read and set. -/
def setMember (read : List Token → Except Fault (Value × List Token)) (acc : Members) (k : String)
    (ts : List Token) : Except Fault (Members × List Token) := do
  let (v, rest) ← read (← afterColon ts)
  .ok (acc.set k v, rest)

/-- A value is a token that is one by itself, or the items of an array, or
the members of an object. -/
theorem value_cases {depth : Nat} {ts : List Token} {v : Value} {rest : List Token}
    (h : value depth ts = .ok (v, rest)) :
    (∃ t, ts = t :: rest ∧ scalar t = some (.ok v)) ∨
    (∃ inner ts' vs, depth = inner + 1 ∧ ts = .openArray :: ts' ∧
      items (value inner) ts' = .ok (vs, rest) ∧ v = .array vs) ∨
    (∃ inner ts' ms, depth = inner + 1 ∧ ts = .openObject :: ts' ∧
      members (setMember (value inner)) [] ts' = .ok (ms, rest) ∧ v = .object ms) := by
  unfold value at h
  split at h
  · split at h
    · cases h
    · rename_i ts' _ inner
      obtain ⟨⟨vs, rest'⟩, hitems, h⟩ := bind_eq_ok_iff.mp h
      cases h
      exact .inr (.inl ⟨inner, ts', vs, rfl, rfl, hitems, rfl⟩)
  · split at h
    · cases h
    · rename_i ts' _ inner
      obtain ⟨⟨ms, rest'⟩, hmembers, h⟩ := bind_eq_ok_iff.mp h
      cases h
      exact .inr (.inr ⟨inner, ts', ms, rfl, rfl, hmembers, rfl⟩)
  · rename_i t ts' _ _
    split at h
    · rename_i result hscalar
      cases result with
      | error fault => cases h
      | ok v' =>
          cases h
          exact .inl ⟨t, rfl, hscalar⟩
    · cases h
  · cases h

theorem eq_of_key {k : String} {ts rest : List Token} (h : key ts = .ok (k, rest)) :
    ∃ passed, ts = .string (.ok k) passed :: rest := by
  unfold key at h
  split at h
  · rename_i text passed rest'
    cases text with
    | error fault => cases h
    | ok k' =>
        cases h
        exact ⟨passed, rfl⟩
  · cases h

theorem token_of_scalar_number {t : Token} {n : Number}
    (h : scalar t = some (.ok (.number n))) : t = .number (some n) := by
  cases t with
  | number m =>
      cases m with
      | none => cases h
      | some m =>
          cases h
          rfl
  | string text passed => cases text <;> cases h
  | _ => cases h

theorem depth_eq_zero_and_distinct_of_scalar {t : Token} {v : Value}
    (h : scalar t = some (.ok v)) : v.depth = 0 ∧ v.Distinct := by
  cases t with
  | null =>
      cases h
      exact ⟨rfl, .null⟩
  | boolean b =>
      cases h
      exact ⟨rfl, .boolean b⟩
  | number m =>
      cases m with
      | none => cases h
      | some m =>
          cases h
          exact ⟨rfl, .number m⟩
  | string text passed =>
      cases text with
      | error fault => cases h
      | ok s =>
          cases h
          exact ⟨rfl, .string s⟩
  | _ => cases h

/-- A value that has been read keeps to the bound on nesting, and no object
in it has two members with one key. -/
theorem depth_le_and_distinct_of_value {depth : Nat} : ∀ {ts : List Token} {v : Value}
    {rest : List Token}, value depth ts = .ok (v, rest) → v.depth ≤ depth ∧ v.Distinct := by
  induction depth with
  | zero =>
      intro ts v rest h
      rcases value_cases h with ⟨t, _, hscalar⟩ | ⟨_, _, _, hdepth, _⟩ | ⟨_, _, _, hdepth, _⟩
      · obtain ⟨hzero, hdistinct⟩ := depth_eq_zero_and_distinct_of_scalar hscalar
        exact ⟨Nat.le_of_eq hzero, hdistinct⟩
      · cases hdepth
      · cases hdepth
  | succ depth ih =>
      intro ts v rest h
      rcases value_cases h with ⟨t, _, hscalar⟩ | ⟨inner, ts', vs, hdepth, _, hitems, rfl⟩ |
        ⟨inner, ts', ms, hdepth, _, hmembers, rfl⟩
      · obtain ⟨hzero, hdistinct⟩ := depth_eq_zero_and_distinct_of_scalar hscalar
        exact ⟨by omega, hdistinct⟩
      · cases hdepth
        have hall := forall_of_items ih hitems
        refine ⟨Nat.succ_le_succ (depthItems_le_iff.mpr fun v hv => (hall v hv).1), ?_⟩
        exact .array fun v hv => (hall v hv).2
      · cases hdepth
        -- Members are set one by one, so a key that comes again adds no member.
        have hkeep : ∀ {acc k ts acc' rest}, setMember (value depth) acc k ts = .ok (acc', rest) →
            (acc.keys.Nodup ∧ ∀ m ∈ acc, m.2.depth ≤ depth ∧ m.2.Distinct) →
            acc'.keys.Nodup ∧ ∀ m ∈ acc', m.2.depth ≤ depth ∧ m.2.Distinct := by
          rintro acc k ts acc' rest hmember ⟨hkeys, hall⟩
          obtain ⟨ts', _, hmember⟩ := bind_eq_ok_iff.mp hmember
          obtain ⟨⟨v, rest'⟩, hvalue, hmember⟩ := bind_eq_ok_iff.mp hmember
          cases hmember
          refine ⟨Members.nodup_keys_set hkeys, fun m hm => ?_⟩
          rcases Members.mem_set hm with rfl | hm
          · exact ih hvalue
          · exact hall m hm
        obtain ⟨hkeys, hall⟩ := invariant_of_members hkeep hmembers
          ⟨List.nodup_nil, fun m hm => by cases hm⟩
        refine ⟨Nat.succ_le_succ (depthMembers_le_iff.mpr fun m hm => (hall m hm).1), ?_⟩
        exact .object hkeys fun m hm => (hall m hm).2

theorem finish_eq_ok_iff {α : Type} {r : Except Fault (α × List Token)} {a : α} :
    finish r = .ok a ↔ r = .ok (a, []) := by
  match r with
  | .error fault => exact ⟨(fun h => by cases h), fun h => by cases h⟩
  | .ok (a', []) => simp [finish]
  | .ok (a', t :: ts) => simp [finish]

theorem depth_le_and_distinct_of_parse {text : String} {v : Value} (h : parse text = .ok v) :
    v.depth ≤ maxDepth ∧ v.Distinct :=
  depth_le_and_distinct_of_value (finish_eq_ok_iff.mp h)

end TemplateGate.Json
