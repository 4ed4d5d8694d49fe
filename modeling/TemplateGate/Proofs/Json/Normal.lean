/-
# `Proofs.Json.Normal` — what has been read by a shape

`Proofs.Json.Shape` follows the tokens of a given value.  Here nothing is
known of the tokens: they are any that a reader has accepted, with unknown
members, with members in any order, with fields left out, or with an array
in the place of a record.  `Shape.Yields` says that a value has come out of
such a reading, and its inversions take it apart along the shape.  A list
has items that were read one level further in, and a member of a record was
read by its field, or stands for a field that was left out.

Only free data are read without a shape, so the bound on nesting and the
absence of repeated keys are facts about the values under `Shape.any`.
-/
import TemplateGate.Json.Shape
import TemplateGate.Proofs.Json.Shape

namespace TemplateGate.Json

namespace Shape

/-- A value is what some tokens are read as, where arrays and objects may
be nested to a depth. -/
def Yields (depth : Nat) (shape : Shape) (v : Value) : Prop :=
  ∃ ts rest, shape.read depth ts = .ok (v, rest)

theorem yields_of_parse {shape : Shape} {text : String} {v : Value}
    (h : shape.parse text = .ok v) : shape.Yields maxDepth v :=
  ⟨_, _, finish_eq_ok_iff.mp h⟩

theorem Yields.depth_le_and_distinct {depth : Nat} {v : Value} (h : Yields depth .any v) :
    v.depth ≤ depth ∧ v.Distinct := by
  obtain ⟨ts, rest, h⟩ := h
  rw [read] at h
  exact depth_le_and_distinct_of_value h

theorem Yields.list {depth : Nat} {item : Shape} {v : Value} (h : Yields depth (.list item) v) :
    ∃ inner vs, depth = inner + 1 ∧ v = .array vs ∧ ∀ w ∈ vs, Yields inner item w := by
  obtain ⟨ts, rest, h⟩ := h
  unfold read at h
  split at h
  · rename_i inner ts'
    obtain ⟨⟨vs, rest'⟩, hitems, h⟩ := bind_eq_ok_iff.mp h
    cases h
    exact ⟨inner, vs, rfl, rfl, forall_of_items (fun hw => ⟨_, _, hw⟩) hitems⟩
  · cases h
  · cases h

end Shape

/-! ## Records -/

/-- A member comes from a field: its value was read by the shape of the
field, or is what the field has when it is left out. -/
def Fields.Explains (fields : Fields) (depth : Nat) (m : String × Value) : Prop :=
  ∃ presence shape, (m.1, presence, shape) ∈ fields ∧
    (presence = .default m.2 ∨ shape.Yields depth m.2)

namespace Fields

theorem eq_default_of_mem {presence : Presence} {name : String} {ms : Members}
    (h : absent name presence = some ms ∨ cutOff name presence = some ms) :
    ∀ m ∈ ms, m.1 = name ∧ presence = .default m.2 := by
  intro m hm
  cases presence with
  | required => rcases h with h | h <;> cases h
  | optional =>
      rcases h with h | h
      · cases h
        cases hm
      · cases h
  | omittable => rcases h with h | h <;> cases h <;> cases hm
  | default v =>
      rcases h with h | h <;> cases h <;> cases List.mem_singleton.mp hm <;> exact ⟨rfl, rfl⟩

end Fields

section Records

variable {fields : Fields} {depth : Nat}

theorem yields_of_readField {presence : Presence} {shape : Shape} {ts rest : List Token}
    {w : Option Value}
    (h : readField (Shape.read depth) presence shape ts = .ok (w, rest)) :
    ∀ v ∈ w, shape.Yields depth v := by
  unfold readField at h
  split at h
  · cases h
    exact fun v hv => by cases hv
  · cases hread : Shape.read depth shape _ with
    | error fault =>
        rw [hread] at h
        cases h
    | ok result =>
        rw [hread] at h
        cases h
        intro v hv
        cases hv
        exact ⟨_, _, hread⟩

/-- What has been found under the name of a field was read by it. -/
def FoundBy (fields : Fields) (depth : Nat) (found : List (String × Option Value)) : Prop :=
  ∀ name v, (name, some v) ∈ found →
    ∃ presence shape, (name, presence, shape) ∈ fields ∧ shape.Yields depth v

theorem foundBy_readMember {found found' : List (String × Option Value)} {name : String}
    {ts rest : List Token}
    (h : readMember (Shape.read depth) fields found name ts = .ok (found', rest))
    (hfound : FoundBy fields depth found) : FoundBy fields depth found' := by
  unfold readMember at h
  split at h
  · obtain ⟨_, -, h⟩ := bind_eq_ok_iff.mp h
    obtain ⟨_, -, h⟩ := bind_eq_ok_iff.mp h
    cases h
    exact hfound
  · rename_i presence shape hfield
    split at h
    · cases h
    · obtain ⟨_, -, h⟩ := bind_eq_ok_iff.mp h
      obtain ⟨⟨w, _⟩, hread, h⟩ := bind_eq_ok_iff.mp h
      cases h
      intro name' v hmem
      rcases List.mem_append.mp hmem with hmem | hmem
      · exact hfound name' v hmem
      · cases List.mem_singleton.mp hmem
        exact ⟨presence, shape, Fields.mem_of_find?_eq_some hfield,
          yields_of_readField hread v rfl⟩

theorem mem_of_foundIn {found : List (String × Option Value)} {name : String} {w : Option Value}
    (h : foundIn found name = some w) : (name, w) ∈ found := by
  induction found with
  | nil => cases h
  | cons e found ih =>
      rw [foundIn] at h
      split at h
      · rename_i heq
        cases h
        exact heq ▸ List.mem_cons_self
      · exact List.mem_cons_of_mem e (ih h)

theorem explains_of_assemble {found : List (String × Option Value)} {known : Fields}
    (hknown : ∀ f ∈ known, f ∈ fields) (hfound : FoundBy fields depth found) :
    ∀ {ms : Members}, Fields.assemble (foundIn found) known = some ms →
      ∀ m ∈ ms, fields.Explains depth m := by
  induction known with
  | nil =>
      intro ms h m hm
      cases h
      cases hm
  | cons f known ih =>
      intro ms h m hm
      obtain ⟨name, presence, shape⟩ := f
      have hfield := hknown _ List.mem_cons_self
      rw [Fields.assemble_cons] at h
      obtain ⟨head, hhead, h⟩ := Option.bind_eq_some_iff.mp h
      obtain ⟨ms', hms, rfl⟩ := Option.map_eq_some_iff.mp h
      rcases List.mem_append.mp hm with hm | hm
      · cases hw : foundIn found name with
        | none =>
            rw [hw] at hhead
            obtain ⟨hname, hdefault⟩ := Fields.eq_default_of_mem (.inl hhead) m hm
            exact ⟨presence, shape, hname ▸ hfield, .inl hdefault⟩
        | some w =>
            rw [hw] at hhead
            cases w with
            | none =>
                cases hhead
                cases hm
            | some v =>
                cases hhead
                cases List.mem_singleton.mp hm
                obtain ⟨presence', shape', hmem, hyields⟩ := hfound name v (mem_of_foundIn hw)
                exact ⟨presence', shape', hmem, .inr hyields⟩
      · exact ih (fun f hf => hknown f (List.mem_cons_of_mem _ hf)) hms m hm

theorem explains_of_readPositions {known : Fields} (hknown : ∀ f ∈ known, f ∈ fields) :
    ∀ {first : Bool} {ts rest : List Token} {ms : Members},
      readPositions (Shape.read depth) first known ts = .ok (ms, rest) →
        ∀ m ∈ ms, fields.Explains depth m := by
  induction known with
  | nil =>
      intro first ts rest ms h m hm
      cases h
      cases hm
  | cons f known ih =>
      intro first ts rest ms h m hm
      obtain ⟨name, presence, shape⟩ := f
      have hfield := hknown _ List.mem_cons_self
      have ih := @ih fun f hf => hknown f (List.mem_cons_of_mem _ hf)
      rw [readPositions] at h
      obtain ⟨next, -, h⟩ := bind_eq_ok_iff.mp h
      cases next with
      | some ts' =>
          obtain ⟨⟨w, ts''⟩, hread, h⟩ := bind_eq_ok_iff.mp h
          obtain ⟨⟨ms', _⟩, hms, h⟩ := bind_eq_ok_iff.mp h
          cases h
          rcases List.mem_append.mp hm with hm | hm
          · obtain ⟨v, hv, rfl⟩ := Option.map_eq_some_iff.mp (Option.mem_toList.mp hm)
            exact ⟨presence, shape, hfield, .inr (yields_of_readField hread v hv)⟩
          · exact ih hms m hm
      | none =>
          dsimp only at h
          split at h
          · rename_i head hhead
            obtain ⟨⟨ms', _⟩, hms, h⟩ := bind_eq_ok_iff.mp h
            cases h
            rcases List.mem_append.mp hm with hm | hm
            · obtain ⟨hname, hdefault⟩ := Fields.eq_default_of_mem (.inr hhead) m hm
              exact ⟨presence, shape, hname ▸ hfield, .inl hdefault⟩
            · exact ih hms m hm
          · cases h

/-- The members of a record come from its fields, whether it was written as
an object or as an array. -/
theorem Shape.Yields.record {v : Value} (h : Shape.Yields depth (.record fields) v) :
    ∃ inner ms, depth = inner + 1 ∧ v = .object ms ∧ ∀ m ∈ ms, fields.Explains inner m := by
  obtain ⟨ts, rest, h⟩ := h
  unfold Shape.read at h
  split at h
  · rename_i inner ts'
    obtain ⟨⟨found, _⟩, hmembers, h⟩ := bind_eq_ok_iff.mp h
    have hfound : FoundBy fields inner found :=
      invariant_of_members foundBy_readMember hmembers fun _ _ hmem => by cases hmem
    dsimp only at h
    split at h
    · rename_i ms hms
      cases h
      exact ⟨inner, ms, rfl, rfl, explains_of_assemble (fun _ hf => hf) hfound hms⟩
    · cases h
  · rename_i inner ts'
    obtain ⟨⟨ms, _⟩, hpositions, h⟩ := bind_eq_ok_iff.mp h
    obtain ⟨_, -, h⟩ := bind_eq_ok_iff.mp h
    cases h
    exact ⟨inner, ms, rfl, rfl, explains_of_readPositions (fun _ hf => hf) hpositions⟩
  · cases h
  · cases h
  · cases h

/-- What a record has under the name of a field was read by the shape of
the field, or is its default. -/
theorem Shape.Yields.field {v w : Value} {name : String} {presence : Presence} {shape : Shape}
    (h : Shape.Yields depth (.record fields) v) (hnames : (Shape.record fields).WellNamed)
    (hfield : fields.find? name = some (presence, shape)) (hget : v.get? name = some w) :
    ∃ inner, depth = inner + 1 ∧ (presence = .default w ∨ shape.Yields inner w) := by
  obtain ⟨inner, ms, rfl, rfl, hall⟩ := h.record
  obtain ⟨presence', shape', hmem, hw⟩ := hall _ (Members.mem_of_get? hget)
  cases hnames with
  | record hnames =>
      rw [Fields.find?_eq_some_of_mem hnames hmem, Option.some.injEq, Prod.mk.injEq] at hfield
      obtain ⟨rfl, rfl⟩ := hfield
      exact ⟨inner, rfl, hw⟩

end Records

end TemplateGate.Json
