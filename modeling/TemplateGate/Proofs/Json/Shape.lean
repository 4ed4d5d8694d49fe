/-
# `Proofs.Json.Shape` — reading by a shape is fitting to it

`Shape.read` reads tokens and `Shape.fit` fits a value that is there
already.  They meet in `Shape.agrees`: of the tokens that a value is written
with, the reader makes the normal form that the value fits to.

Most of the work is records.  Their members come in any order and some
are passed over, so between the two stands `Fields.pick`, what is found
under the names of the fields in the order of the members.  The reader
gathers it, and put in the order of the fields it is the normal form.
Fields are looked up by name, which is why names have to be different in
every record of a shape (`Shape.WellNamed`).
-/
import TemplateGate.Json.Shape
import TemplateGate.Proofs.Json.Tokens
import TemplateGate.Proofs.Lists

namespace TemplateGate.Json

-- The equations of both functions are made here, once, and not by the first proofs that ask
-- for them while others wait.
attribute [local simp] Shape.fit Shape.read

/-! ## Passing over -/

mutual

/-- A value is nested no deeper than it has tokens. -/
theorem Value.depth_le_length_tokens : ∀ v : Value, v.depth ≤ v.tokens.length
  | .null | .boolean _ | .number _ | .string _ => Nat.zero_le _
  | .array [] | .object [] => by
      simp [Value.depth, Value.depthItems, Value.depthMembers, Value.tokens]
  | .array (v :: vs) => by
      have hv := v.depth_le_length_tokens
      have hvs := depthItems_le_length vs
      simp only [Value.depth, Value.depthItems, Value.tokens, List.length_cons, List.length_append]
      omega
  | .object ((_, v) :: ms) => by
      have hv := v.depth_le_length_tokens
      have hms := depthMembers_le_length ms
      simp only [Value.depth, Value.depthMembers, Value.tokens, List.length_cons,
        List.length_append]
      omega

theorem depthItems_le_length : ∀ vs : List Value,
    Value.depthItems vs ≤ (moreItemTokens vs).length
  | [] => Nat.zero_le _
  | v :: vs => by
      have hv := v.depth_le_length_tokens
      have hvs := depthItems_le_length vs
      simp only [Value.depthItems, moreItemTokens, List.length_cons, List.length_append]
      omega

theorem depthMembers_le_length : ∀ ms : Members,
    Value.depthMembers ms ≤ (moreMemberTokens ms).length
  | [] => Nat.zero_le _
  | (_, v) :: ms => by
      have hv := v.depth_le_length_tokens
      have hms := depthMembers_le_length ms
      simp only [Value.depthMembers, moreMemberTokens, List.length_cons, List.length_append]
      omega

end

theorem passMembers_tokens {pass : List Token → Except Fault (List Token)} {ms : Members}
    (h : ∀ m ∈ ms, ∀ rest, pass (m.2.tokens ++ rest) = .ok rest) (rest : List Token) :
    ∀ {fuel : Nat}, ms.length ≤ fuel →
      passMembers pass fuel (moreMemberTokens ms ++ .closeObject :: rest) = .ok rest := by
  induction ms with
  | nil =>
      intro fuel _
      cases fuel <;> rfl
  | cons m ms ih =>
      intro fuel hfuel
      obtain ⟨k, v⟩ := m
      cases fuel with
      | zero => exact absurd hfuel (Nat.not_succ_le_zero _)
      | succ fuel =>
          have hrest := ih (fun m hm => h m (List.mem_cons_of_mem _ hm))
            (Nat.le_of_succ_le_succ hfuel)
          simp only [moreMemberTokens, List.cons_append, List.append_assoc]
          rw [passMembers]
          refine bind_eq_ok_iff.mpr ⟨_, rfl, bind_eq_ok_iff.mpr ⟨_, rfl, ?_⟩⟩
          exact bind_eq_ok_iff.mpr ⟨_, h (k, v) List.mem_cons_self _, hrest⟩

theorem pass_tokens {depth : Nat} : ∀ {v : Value}, v.depth ≤ depth → ∀ rest : List Token,
    pass depth (v.tokens ++ rest) = .ok rest := by
  induction depth with
  | zero =>
      intro v hdepth rest
      match v with
      | .null | .boolean _ | .number _ | .string _ => rfl
      | .array _ | .object _ => exact absurd hdepth (Nat.not_succ_le_zero _)
  | succ depth ih =>
      intro v hdepth rest
      match v with
      | .null | .boolean _ | .number _ | .string _ => rfl
      | .array vs =>
          have hdepths := depthItems_le_iff.mp (Nat.le_of_succ_le_succ hdepth)
          have hread : List.Forall₂
              (ReadsAs fun ts => (pass depth ts).map fun rest => ((), rest)) vs
              (vs.map fun _ => ()) := by
            refine List.forall₂_map_right_iff.mpr (List.forall₂_same.mpr fun v hv rest => ?_)
            show Except.map _ (pass depth (v.tokens ++ rest)) = _
            rw [ih (hdepths v hv)]
            rfl
          rw [Value.tokens_array]
          show (items _ _).map _ = _
          rw [items_tokens hread]
          rfl
      | .object [] => rfl
      | .object ((k, v) :: ms) =>
          have hdepths := depthMembers_le_iff.mp (Nat.le_of_succ_le_succ hdepth)
          have hall : ∀ m ∈ (k, v) :: ms, ∀ rest, pass depth (m.2.tokens ++ rest) = .ok rest :=
            fun m hm => ih (hdepths m hm)
          have hfuel := length_le_moreMemberTokens ms (.closeObject :: rest)
          rw [Value.tokens_object]
          simp only [memberTokens, List.cons_append, List.append_assoc]
          rw [pass]
          · refine bind_eq_ok_iff.mpr ⟨_, rfl, bind_eq_ok_iff.mpr ⟨_, rfl, ?_⟩⟩
            refine bind_eq_ok_iff.mpr ⟨_, hall (k, v) List.mem_cons_self _, ?_⟩
            exact passMembers_tokens (fun m hm => hall m (List.mem_cons_of_mem _ hm)) rest hfuel
          · exact fun _ heq => by cases heq

/-! ## Fields of a record -/

/-- The names of the fields are different in every record of a shape. -/
inductive Shape.WellNamed : Shape → Prop
  | any : WellNamed .any
  | text : WellNamed .text
  | textWhere (holds : String → Bool) : WellNamed (.textWhere holds)
  | flag : WellNamed .flag
  | word : WellNamed .word
  | choice (names : List String) : WellNamed (.choice names)
  | list {item : Shape} : WellNamed item → WellNamed (.list item)
  | dictionary {item : Shape} : WellNamed item → WellNamed (.dictionary item)
  | record {fields : Fields} : (fields.map (·.1)).Nodup → (∀ f ∈ fields, WellNamed f.2.2) →
      WellNamed (.record fields)

/-- What a value under the name of a field is found to be: nothing, or a
value that fits; `none` if it does not fit. -/
def fitField (presence : Presence) (shape : Shape) (v : Value) : Option (Option Value) :=
  match Fields.isNullable presence, v with
  | true, .null => some none
  | _, v => (shape.fit v).map some

namespace Fields

theorem find?_eq_some_of_mem : ∀ {fields : Fields}, (fields.map (·.1)).Nodup →
    ∀ {name : String} {presence : Presence} {shape : Shape}, (name, presence, shape) ∈ fields →
      fields.find? name = some (presence, shape)
  | (n, p, s) :: fields, hnames, name, presence, shape, h => by
      rw [List.map_cons, List.nodup_cons] at hnames
      rw [find?]
      rcases List.mem_cons.mp h with heq | h
      · cases heq
        rw [if_pos rfl]
      · rw [if_neg, find?_eq_some_of_mem hnames.2 h]
        rintro rfl
        exact hnames.1 (List.mem_map.mpr ⟨_, h, rfl⟩)

theorem mem_of_find?_eq_some {name : String} {presence : Presence} {shape : Shape}
    {fields : Fields} (h : fields.find? name = some (presence, shape)) :
    (name, presence, shape) ∈ fields := by
  induction fields with
  | nil => cases h
  | cons f fields ih =>
      rw [find?] at h
      split at h
      · rename_i heq
        cases h
        exact heq ▸ List.mem_cons_self
      · exact List.mem_cons_of_mem f (ih h)

/-- What is found in the members of an object under the names of fields, in
the order of the members; `none` if something does not fit. -/
def pick (fields : Fields) : Members → Option (List (String × Option Value))
  | [] => some []
  | (k, v) :: ms =>
      match fields.find? k with
      | none => pick fields ms
      | some (presence, shape) => do
          let w ← fitField presence shape v
          pure ((k, w) :: (← pick fields ms))

/-- The first thing found under the name of a field is what its first
member is found to be. -/
theorem foundIn_pick {fields : Fields} {name : String} {presence : Presence} {shape : Shape}
    (hfind : fields.find? name = some (presence, shape)) {ms : Members} :
    ∀ {found : List (String × Option Value)}, fields.pick ms = some found →
      foundIn found name = (ms.get? name).bind (fitField presence shape) := by
  induction ms with
  | nil =>
      intro found h
      cases h
      rfl
  | cons m ms ih =>
      intro found h
      obtain ⟨k, v⟩ := m
      rw [pick] at h
      rw [Members.get?]
      split at h
      · rename_i hnone
        have hne : k ≠ name := by
          rintro rfl
          rw [hfind] at hnone
          cases hnone
        rw [if_neg hne]
        exact ih h
      · rename_i presence' shape' hsome
        obtain ⟨w, hw, h⟩ := Option.bind_eq_some_iff.mp h
        obtain ⟨found', hfound, h⟩ := Option.bind_eq_some_iff.mp h
        cases h
        rw [foundIn]
        by_cases hk : k = name
        · subst hk
          rw [hfind] at hsome
          cases hsome
          rw [if_pos rfl, if_pos rfl, Option.bind_some, hw]
        · rw [if_neg hk, if_neg hk]
          exact ih hfound

theorem exists_pick {fields : Fields} {ms : Members}
    (h : ∀ m ∈ ms, ∀ presence shape, fields.find? m.1 = some (presence, shape) →
      ∃ w, fitField presence shape m.2 = some w) : ∃ found, fields.pick ms = some found := by
  induction ms with
  | nil => exact ⟨[], rfl⟩
  | cons m ms ih =>
      obtain ⟨k, v⟩ := m
      obtain ⟨found, hfound⟩ := ih fun m hm => h m (List.mem_cons_of_mem _ hm)
      rw [pick, hfound]
      split
      · exact ⟨_, rfl⟩
      · rename_i presence shape hfind
        obtain ⟨w, hw⟩ := h (k, v) List.mem_cons_self presence shape hfind
        rw [hw]
        exact ⟨_, rfl⟩

/-- What the normal form of a record has of a field, from what was found. -/
def headOf (name : String) (presence : Presence) : Option (Option Value) → Option Members
  | none => absent name presence
  | some none => some []
  | some (some v) => some [(name, v)]

theorem assemble_cons (found : String → Option (Option Value)) (name : String)
    (presence : Presence) (shape : Shape) (fields : Fields) :
    assemble found ((name, presence, shape) :: fields) =
      (headOf name presence (found name)).bind fun head =>
        (assemble found fields).map (head ++ ·) := by
  rw [assemble]
  unfold headOf
  cases assemble found fields <;> rcases found name with _ | _ | v
  · cases absent name presence <;> rfl
  · rfl
  · rfl
  · cases absent name presence <;> rfl
  · rfl
  · rfl

theorem fitMembers_cons (name : String) (presence : Presence) (shape : Shape) (fields : Fields)
    (ms : Members) : Shape.fitMembers ((name, presence, shape) :: fields) ms =
      (match ms.get? name with
        | none => absent name presence
        | some v => (fitField presence shape v).bind fun w =>
            headOf name presence (some w)).bind fun head =>
        (Shape.fitMembers fields ms).map (head ++ ·) := by
  rw [Shape.fitMembers]
  rcases ms.get? name with _ | v
  · cases absent name presence <;> cases Shape.fitMembers fields ms <;> rfl
  · unfold fitField
    cases isNullable presence with
    | false =>
        cases v <;> dsimp only <;> cases shape.fit _ <;> cases Shape.fitMembers fields ms <;> rfl
    | true =>
        cases v with
        | null => cases Shape.fitMembers fields ms <;> rfl
        | _ =>
            dsimp only
            cases shape.fit _ <;> cases Shape.fitMembers fields ms <;> rfl

theorem fitField_of_fitMembers {ms : Members} {name : String} {presence : Presence}
    {shape : Shape} {v : Value} (hget : ms.get? name = some v) {fields : Fields} :
    ∀ {n : Members}, Shape.fitMembers fields ms = some n →
      (name, presence, shape) ∈ fields → ∃ w, fitField presence shape v = some w := by
  induction fields with
  | nil => exact fun _ hmem => absurd hmem List.not_mem_nil
  | cons f fields ih =>
      intro n hfit hmem
      obtain ⟨name', presence', shape'⟩ := f
      rw [fitMembers_cons] at hfit
      obtain ⟨head, hhead, hfit⟩ := Option.bind_eq_some_iff.mp hfit
      rcases List.mem_cons.mp hmem with heq | hmem
      · cases heq
        rw [hget] at hhead
        obtain ⟨w, hw, _⟩ := Option.bind_eq_some_iff.mp hhead
        exact ⟨w, hw⟩
      · obtain ⟨n', hfit, _⟩ := Option.map_eq_some_iff.mp hfit
        exact ih hfit hmem

/-- What was found, in the order of the fields, is the normal form. -/
theorem assemble_eq_of_fitMembers {ms : Members} {found : String → Option (Option Value)}
    {fields : Fields} (hfound : ∀ name presence shape, (name, presence, shape) ∈ fields →
      found name = (ms.get? name).bind (fitField presence shape)) :
    ∀ {n : Members}, Shape.fitMembers fields ms = some n → assemble found fields = some n := by
  induction fields with
  | nil =>
      intro n hfit
      rw [Shape.fitMembers] at hfit
      exact hfit
  | cons f fields ih =>
      intro n hfit
      obtain ⟨name, presence, shape⟩ := f
      rw [fitMembers_cons] at hfit
      obtain ⟨head, hhead, hfit⟩ := Option.bind_eq_some_iff.mp hfit
      obtain ⟨n', hn', hn⟩ := Option.map_eq_some_iff.mp hfit
      have hrest := ih (fun name' presence' shape' hmem =>
        hfound name' presence' shape' (List.mem_cons_of_mem _ hmem)) hn'
      rw [assemble_cons, hrest, hfound name presence shape List.mem_cons_self]
      rcases hget : ms.get? name with _ | v
      · rw [hget] at hhead
        refine Option.bind_eq_some_iff.mpr ⟨head, hhead, ?_⟩
        exact Option.map_eq_some_iff.mpr ⟨n', rfl, hn⟩
      · rw [hget] at hhead
        obtain ⟨w, hw, hhead⟩ := Option.bind_eq_some_iff.mp hhead
        rw [Option.bind_some, hw]
        refine Option.bind_eq_some_iff.mpr ⟨head, hhead, ?_⟩
        exact Option.map_eq_some_iff.mpr ⟨n', rfl, hn⟩

end Fields

/-! ## Reading the members of a record -/

theorem foundIn_append_singleton {found : List (String × Option Value)} {k name : String}
    {w : Option Value} (hfound : foundIn found name = none) (hne : k ≠ name) :
    foundIn (found ++ [(k, w)]) name = none := by
  induction found with
  | nil => simp [foundIn, hne]
  | cons f found ih =>
      obtain ⟨n, v⟩ := f
      rw [foundIn] at hfound
      rw [List.cons_append, foundIn]
      split at hfound
      · cases hfound
      · rename_i hn
        rw [if_neg hn]
        exact ih hfound

/-- Members are gathered one behind the other, and those that no field is
named like are passed over. -/
theorem runs_readMember {read : Shape → List Token → Except Fault (Value × List Token)}
    {fields : Fields} {ms : Members}
    (hread : ∀ m ∈ ms, ∀ presence shape w, fields.find? m.1 = some (presence, shape) →
      fitField presence shape m.2 = some w → ReadsAs (readField read presence shape) m.2 w)
    (hkeys : ms.keys.Nodup) : ∀ {found found' : List (String × Option Value)},
      (∀ k ∈ ms.keys, foundIn found k = none) → fields.pick ms = some found' →
        Runs (readMember read fields) found ms (found ++ found') := by
  induction ms with
  | nil =>
      intro found found' _ hpick
      cases hpick
      rw [List.append_nil]
      exact .nil
  | cons m ms ih =>
      intro found found' hnew hpick
      obtain ⟨k, v⟩ := m
      rw [Members.keys, List.map_cons, List.nodup_cons] at hkeys
      have ih' : ∀ {found found' : List (String × Option Value)},
          (∀ k ∈ Members.keys ms, foundIn found k = none) → fields.pick ms = some found' →
            Runs (readMember read fields) found ms (found ++ found') :=
        ih (fun m hm => hread m (List.mem_cons_of_mem (k, v) hm)) hkeys.2
      have hnew' := fun name hname => hnew name (List.mem_cons_of_mem k hname)
      rw [Fields.pick] at hpick
      split at hpick
      · rename_i hunknown
        refine .cons (fun rest => ?_) (ih' hnew' hpick)
        have hfuel : v.depth ≤ (v.tokens ++ rest).length := by
          rw [List.length_append]
          exact Nat.le_trans v.depth_le_length_tokens (Nat.le_add_right _ _)
        rw [readMember, hunknown]
        refine bind_eq_ok_iff.mpr ⟨_, rfl, bind_eq_ok_iff.mpr ⟨_, pass_tokens hfuel rest, rfl⟩⟩
      · rename_i presence shape hknown
        obtain ⟨w, hw, hpick⟩ := Option.bind_eq_some_iff.mp hpick
        obtain ⟨found'', hrest, heq⟩ := Option.bind_eq_some_iff.mp hpick
        cases heq
        have hfresh : ∀ name ∈ Members.keys ms, foundIn (found ++ [(k, w)]) name = none :=
          fun name hname => foundIn_append_singleton (hnew' name hname) fun heq =>
            hkeys.1 (heq ▸ hname)
        have hruns := ih' hfresh hrest
        rw [List.append_assoc, List.singleton_append] at hruns
        refine .cons (fun rest => ?_) hruns
        rw [readMember, hknown]
        have hnone : foundIn found k = none := hnew k List.mem_cons_self
        dsimp only
        rw [hnone, if_neg (by simp)]
        refine bind_eq_ok_iff.mpr ⟨_, rfl, bind_eq_ok_iff.mpr ⟨(w, rest), ?_, rfl⟩⟩
        exact hread (k, v) List.mem_cons_self presence shape w hknown hw rest

theorem tokens_ne_null {v : Value} (h : v ≠ .null) (rest rest' : List Token) :
    v.tokens ++ rest ≠ .null :: rest' := by
  intro heq
  match v with
  | .null => exact h rfl
  | .boolean _ | .number _ | .string _ => cases heq
  | .array vs =>
      rw [Value.tokens_array] at heq
      cases heq
  | .object ms =>
      rw [Value.tokens_object] at heq
      cases heq

theorem readField_tokens {read : Shape → List Token → Except Fault (Value × List Token)}
    {presence : Presence} {shape : Shape} {v : Value} {w : Option Value}
    (hread : ∀ n, shape.fit v = some n → ReadsAs (read shape) v n)
    (hfit : fitField presence shape v = some w) : ReadsAs (readField read presence shape) v w := by
  intro rest
  have hvalue : ∀ n, shape.fit v = some n → (read shape (v.tokens ++ rest)).map
      (fun r => (some r.1, r.2)) = .ok (some n, rest) := by
    intro n hn
    rw [hread n hn]
    rfl
  unfold fitField at hfit
  unfold readField
  split at hfit
  · rename_i hnullable
    cases hfit
    rw [hnullable]
    rfl
  · rename_i hnull
    obtain ⟨n, hn, rfl⟩ := Option.map_eq_some_iff.mp hfit
    split
    · rename_i hnullable heq
      exact absurd heq (tokens_ne_null (fun hv => hnull hnullable hv) _ _)
    · exact hvalue n hn

/-! ## Reading the items of an array as a record -/

/-- The tokens of the items from some position on, to the closing bracket. -/
def tokensFrom (first : Bool) (vs : List Value) (rest : List Token) : List Token :=
  (if first then itemTokens vs else moreItemTokens vs) ++ .closeArray :: rest

theorem nextItem_nil (first : Bool) (rest : List Token) :
    nextItem first (tokensFrom first [] rest) = .ok none := by
  cases first <;> rfl

theorem nextItem_cons (first : Bool) (v : Value) (vs : List Value) (rest : List Token) :
    nextItem first (tokensFrom first (v :: vs) rest) =
      .ok (some (v.tokens ++ tokensFrom false vs rest)) := by
  have hitem : ∀ t ts, t.begins = true → nextItem true (t :: ts) = .ok (some (t :: ts)) ∧
      nextItem false (.comma :: t :: ts) = .ok (some (t :: ts)) := by
    intro t ts h
    cases t with
    | closeArray | comma => cases h
    | _ => exact ⟨rfl, rfl⟩
  obtain ⟨t, ts, htokens, hbegins⟩ := v.tokens_eq_cons
  cases first with
  | true =>
      simp only [tokensFrom, itemTokens, if_true, List.append_assoc, htokens, List.cons_append]
      exact (hitem _ _ hbegins).1
  | false =>
      simp only [tokensFrom, moreItemTokens, Bool.false_eq_true, if_false, List.append_assoc,
        htokens, List.cons_append]
      exact (hitem _ _ hbegins).2

theorem fitPositions_cons (name : String) (presence : Presence) (shape : Shape) (fields : Fields)
    (v : Value) (vs : List Value) :
    Shape.fitPositions ((name, presence, shape) :: fields) (v :: vs) =
      (fitField presence shape v).bind fun w => (Shape.fitPositions fields vs).map
        ((w.map fun w => (name, w)).toList ++ ·) := by
  rw [Shape.fitPositions.eq_def]
  unfold fitField
  simp only [List.tail_cons]
  cases Fields.isNullable presence with
  | false =>
      cases v <;> dsimp only <;> cases shape.fit _ <;> cases Shape.fitPositions fields vs <;> rfl
  | true =>
      cases v with
      | null => cases Shape.fitPositions fields vs <;> rfl
      | _ =>
          dsimp only
          cases shape.fit _ <;> cases Shape.fitPositions fields vs <;> rfl

theorem fitPositions_nil (name : String) (presence : Presence) (shape : Shape) (fields : Fields) :
    Shape.fitPositions ((name, presence, shape) :: fields) [] =
      (Fields.cutOff name presence).bind fun head =>
        (Shape.fitPositions fields []).map (head ++ ·) := by
  rw [Shape.fitPositions, List.tail_nil]
  cases Fields.cutOff name presence <;> cases Shape.fitPositions fields [] <;> rfl

theorem readPositions_tokens {read : Shape → List Token → Except Fault (Value × List Token)}
    (rest : List Token) {fields : Fields} : ∀ {vs : List Value} {n : Members} {first : Bool},
      (∀ f ∈ fields, ∀ v ∈ vs, ∀ m, f.2.2.fit v = some m → ReadsAs (read f.2.2) v m) →
      Shape.fitPositions fields vs = some n →
      readPositions read first fields (tokensFrom first vs rest) =
        .ok (n, .closeArray :: rest) := by
  induction fields with
  | nil =>
      intro vs n first _ hfit
      cases vs with
      | nil =>
          rw [Shape.fitPositions] at hfit
          cases hfit
          cases first <;> rfl
      | cons _ _ =>
          rw [Shape.fitPositions] at hfit
          cases hfit
  | cons f fields ih =>
      intro vs n first hread hfit
      obtain ⟨name, presence, shape⟩ := f
      cases vs with
      | nil =>
          rw [fitPositions_nil] at hfit
          obtain ⟨head, hhead, hfit⟩ := Option.bind_eq_some_iff.mp hfit
          obtain ⟨n', hn', rfl⟩ := Option.map_eq_some_iff.mp hfit
          have hrest : readPositions read false fields (tokensFrom false [] rest) =
              .ok (n', .closeArray :: rest) :=
            ih (fun f _ v hv => absurd hv List.not_mem_nil) hn'
          have hts : tokensFrom first [] rest = tokensFrom false [] rest := by
            cases first <;> rfl
          rw [readPositions]
          refine bind_eq_ok_iff.mpr ⟨_, nextItem_nil first rest, ?_⟩
          rw [hhead, hts]
          exact bind_eq_ok_iff.mpr ⟨_, hrest, rfl⟩
      | cons v vs =>
          rw [fitPositions_cons] at hfit
          obtain ⟨w, hw, hfit⟩ := Option.bind_eq_some_iff.mp hfit
          obtain ⟨n', hn', rfl⟩ := Option.map_eq_some_iff.mp hfit
          have hfield := readField_tokens (fun m hm =>
            hread _ List.mem_cons_self v List.mem_cons_self m hm) hw
          have hrest : readPositions read false fields (tokensFrom false vs rest) =
              .ok (n', .closeArray :: rest) :=
            ih (fun f hf u hu =>
              hread f (List.mem_cons_of_mem _ hf) u (List.mem_cons_of_mem _ hu)) hn'
          rw [readPositions]
          refine bind_eq_ok_iff.mpr ⟨_, nextItem_cons first v vs rest, ?_⟩
          exact bind_eq_ok_iff.mpr ⟨_, hfield _, bind_eq_ok_iff.mpr ⟨_, hrest, rfl⟩⟩

/-! ## Reading by a shape -/

namespace Shape

/-- The shapes whose values hold no values of other shapes. -/
def isFlat : Shape → Bool
  | .list _ => false
  | .dictionary _ => false
  | .record _ => false
  | _ => true

/-- Reading by a shape agrees with fitting to it, up to a depth. -/
def Agrees (depth : Nat) (shape : Shape) : Prop := ∀ {v n : Value}, v.depth ≤ depth → v.Distinct →
  shape.fit v = some n → ReadsAs (read depth shape) v n

theorem eq_of_fit_choice {names : List String} {v n : Value}
    (h : (Shape.choice names).fit v = some n) : ∃ s ∈ names, n = .string s ∧
      (v = .string s ∨ v = .object [(s, .null)]) := by
  rw [fit.eq_def] at h
  split at h
  case h_6 heq =>
      cases heq
      split at h
      · rename_i hs
        cases h
        exact ⟨_, hs, rfl, .inl rfl⟩
      · cases h
  case h_7 heq =>
      cases heq
      split at h
      · rename_i hs
        cases h
        exact ⟨_, hs, rfl, .inr rfl⟩
      · cases h
  case h_12 => cases h
  all_goals cases ‹Shape.choice _ = _›

theorem agrees_choice (depth : Nat) (names : List String) : Agrees depth (.choice names) := by
  intro v n hdepth _ hfit rest
  obtain ⟨s, hs, rfl, rfl | rfl⟩ := eq_of_fit_choice hfit
  · rw [read]
    show (if s ∈ names then _ else _) = _
    rw [if_pos hs]
    rfl
  · rw [read]
    show (if depth = 0 then _ else if s ∈ names then _ else _) = _
    rw [if_neg (by rintro rfl; cases hdepth), if_pos hs]
    rfl

theorem agrees_of_isFlat {depth : Nat} {shape : Shape} (h : shape.isFlat = true) :
    Agrees depth shape := by
  intro v n hdepth hdistinct hfit rest
  cases shape with
  | list _ | dictionary _ | record _ => cases h
  | any =>
      rw [fit] at hfit
      cases hfit
      rw [read]
      exact value_tokens hdepth hdistinct rest
  | text =>
      rw [fit] at hfit
      cases v with
      | string s =>
          cases hfit
          show read depth .text (.string (.ok s) (.ok ()) :: rest) = _
          rw [read]
          rfl
      | _ => cases hfit
  | textWhere holds =>
      rw [fit] at hfit
      cases v with
      | string s =>
          rw [Value.text?, Option.filter_some] at hfit
          split at hfit
          · rename_i hholds
            cases hfit
            show read depth (.textWhere holds) (.string (.ok s) (.ok ()) :: rest) = _
            rw [read, if_pos hholds]
          · cases hfit
      | _ => cases hfit
  | flag =>
      cases v with
      | boolean b =>
          rw [fit] at hfit
          cases hfit
          show read depth .flag (.boolean b :: rest) = _
          rw [read]
      | _ => simp at hfit
  | word =>
      cases v with
      | number m =>
          rw [fit] at hfit
          split at hfit
          · rename_i hword
            cases hfit
            show read depth .word (.number (some m) :: rest) = _
            rw [read, if_pos hword]
          · cases hfit
      | _ => simp at hfit
  | choice names => exact agrees_choice depth names hdepth hdistinct hfit rest

theorem agrees_list {depth : Nat} {item : Shape} (h : Agrees depth item) :
    Agrees (depth + 1) (.list item) := by
  intro v n hdepth hdistinct hfit rest
  cases hdistinct with
  | @array vs hall =>
      rw [fit] at hfit
      obtain ⟨ns, hns, rfl⟩ := Option.map_eq_some_iff.mp hfit
      have hdepths := depthItems_le_iff.mp (Nat.le_of_succ_le_succ hdepth)
      have hread : List.Forall₂ (ReadsAs (read depth item)) vs ns :=
        forall₂_of_mapM hns fun v hv n hn => h (hdepths v hv) (hall v hv) hn
      rw [Value.tokens_array, read]
      exact bind_eq_ok_iff.mpr ⟨_, items_tokens hread rest, rfl⟩
  | _ => simp at hfit

theorem agrees_dictionary {depth : Nat} {item : Shape} (h : Agrees depth item) :
    Agrees (depth + 1) (.dictionary item) := by
  intro v n hdepth hdistinct hfit rest
  cases hdistinct with
  | @object ms hkeys hall =>
      rw [fit] at hfit
      obtain ⟨ns, hns, rfl⟩ := Option.map_eq_some_iff.mp hfit
      have hdepths := depthMembers_le_iff.mp (Nat.le_of_succ_le_succ hdepth)
      have hread : List.Forall₂ (fun m m' => m'.1 = m.1 ∧ ReadsAs (read depth item) m.2 m'.2)
          ms ns := by
        refine forall₂_of_mapM hns fun m hm m' hm' => ?_
        obtain ⟨n, hn, rfl⟩ := Option.map_eq_some_iff.mp hm'
        exact ⟨rfl, h (hdepths m hm) (hall m hm) hn⟩
      rw [Value.tokens_object, read]
      have hruns : Runs (setMember (read depth item)) [] ms ns := runs_setMember hread hkeys
      exact bind_eq_ok_iff.mpr ⟨_, members_tokens hruns rest, rfl⟩
  | _ => simp at hfit

theorem agrees_record {depth : Nat} {fields : Fields} (hnames : (fields.map (·.1)).Nodup)
    (h : ∀ f ∈ fields, Agrees depth f.2.2) : Agrees (depth + 1) (.record fields) := by
  intro v n hdepth hdistinct hfit rest
  cases hdistinct with
  | @object ms hkeys hall =>
      rw [fit] at hfit
      obtain ⟨n', hn', rfl⟩ := Option.map_eq_some_iff.mp hfit
      have hdepths := depthMembers_le_iff.mp (Nat.le_of_succ_le_succ hdepth)
      obtain ⟨found, hpick⟩ : ∃ found, Fields.pick fields ms = some found := by
        refine Fields.exists_pick fun m hm presence shape hfind => ?_
        exact Fields.fitField_of_fitMembers (Members.get?_eq_some_of_mem hkeys hm) hn'
          (Fields.mem_of_find?_eq_some hfind)
      have hruns : Runs (readMember (read depth) fields) [] ms found := by
        refine runs_readMember (fun m hm presence shape w hfind hw => ?_) hkeys
          (fun _ _ => rfl) hpick
        refine readField_tokens (fun n hn => ?_) hw
        exact h _ (Fields.mem_of_find?_eq_some hfind) (hdepths m hm) (hall m hm) hn
      have hassemble : Fields.assemble (foundIn found) fields = some n' := by
        refine Fields.assemble_eq_of_fitMembers (fun name presence shape hmem => ?_) hn'
        exact Fields.foundIn_pick (Fields.find?_eq_some_of_mem hnames hmem) hpick
      rw [Value.tokens_object, read]
      refine bind_eq_ok_iff.mpr ⟨_, members_tokens hruns rest, ?_⟩
      dsimp only
      rw [hassemble]
  | @array vs hall =>
      rw [fit] at hfit
      obtain ⟨n', hn', rfl⟩ := Option.map_eq_some_iff.mp hfit
      have hdepths := depthItems_le_iff.mp (Nat.le_of_succ_le_succ hdepth)
      have hread : readPositions (read depth) true fields (tokensFrom true vs rest) =
          .ok (n', .closeArray :: rest) :=
        readPositions_tokens rest (fun f hf v hv m hm => h f hf (hdepths v hv) (hall v hv) hm) hn'
      rw [Value.tokens_array, read]
      exact bind_eq_ok_iff.mpr ⟨_, hread, bind_eq_ok_iff.mpr ⟨_, rfl, rfl⟩⟩
  | _ => simp at hfit

/-- Of the tokens that a value is written with, reading makes the normal
form that the value fits to. -/
theorem agrees {depth : Nat} : ∀ {shape : Shape}, shape.WellNamed → Agrees depth shape := by
  induction depth with
  | zero =>
      intro shape hnames
      by_cases hflat : shape.isFlat = true
      · exact agrees_of_isFlat hflat
      · intro hdepth hdistinct hfit rest
        -- Only an array or an object fits, and there is no room for one.
        cases hdistinct with
        | array | object => exact absurd hdepth (Nat.not_succ_le_zero _)
        | _ => cases shape <;> first | exact absurd rfl hflat | simp at hfit
  | succ depth ih =>
      intro shape hnames
      cases hnames with
      | list hitem => exact agrees_list (ih hitem)
      | dictionary hitem => exact agrees_dictionary (ih hitem)
      | record hfields hall => exact agrees_record hfields fun f hf => ih (hall f hf)
      | _ => exact agrees_of_isFlat rfl

end Shape

end TemplateGate.Json
