/-
# `Proofs.Json.Path` — what lies at the end of a path of keys

`Value.At path v w` says that the keys of `path`, followed from `v` through
the members of objects, lead to `w`.  It knows nothing of resources: the
properties of a resource, its SKU and the template itself are all values
that paths can be followed through, so one relation serves them all, and
`Resource.property?` is shown to compute it (`property?_eq_some_iff`).

`Value.Unset` lists the values that do not count as set.  It is what
`Value.isTruthy` decides, with a zero of either notation told by what it
denotes and not by how it is held.
-/
import TemplateGate.Template.Document

namespace TemplateGate.Json

/-! ## Paths -/

/-- Following a path of keys through the members of objects leads from the
first value to the second. -/
inductive Value.At : List String → Value → Value → Prop
  | here {v : Value} : At [] v v
  | step {key : String} {path : List String} {members : Members} {v w : Value} :
      members.get? key = some v → At path v w → At (key :: path) (.object members) w

namespace Value

theorem at_nil_iff {v w : Value} : At [] v w ↔ w = v := by
  constructor
  · intro h
    cases h
    rfl
  · rintro rfl
    exact .here

theorem at_cons_iff {key : String} {path : List String} {members : Members} {w : Value} :
    At (key :: path) (.object members) w ↔
      ∃ v, members.get? key = some v ∧ At path v w := by
  constructor
  · intro h
    cases h with
    | step hget hrest => exact ⟨_, hget, hrest⟩
  · rintro ⟨v, hget, hrest⟩
    exact .step hget hrest

theorem At.object {key : String} {path : List String} {v w : Value}
    (h : At (key :: path) v w) : ∃ members, v = .object members := by
  cases h with
  | step _ _ => exact ⟨_, rfl⟩

theorem at_singleton_iff {key : String} {members : Members} {w : Value} :
    At [key] (.object members) w ↔ members.get? key = some w := by
  rw [at_cons_iff]
  constructor
  · rintro ⟨v, hget, hrest⟩
    rw [at_nil_iff.mp hrest]
    exact hget
  · exact fun h => ⟨w, h, .here⟩

end Value

/-! ## Values that do not count as set -/

/-- Zero, as an integer or as a double of either sign. -/
def Number.IsZero : Number → Prop
  | .integer value _ => value = 0
  | .double d => d.magnitude = 0

theorem Number.isZero_iff {n : Number} : n.isZero = true ↔ n.IsZero := by
  cases n with
  | integer value _ => exact beq_iff_eq
  | double d => exact Decimal.Double.isZero_iff

/-- The values that do not count as set. -/
inductive Value.Unset : Value → Prop
  | null : Unset .null
  | no : Unset (.boolean false)
  | zero {n : Number} : n.IsZero → Unset (.number n)
  | emptyText : Unset (.string "")
  | emptyArray : Unset (.array [])
  | emptyObject : Unset (.object [])

theorem Value.isTruthy_eq_false_iff {v : Value} : v.isTruthy = false ↔ v.Unset := by
  constructor
  · intro h
    cases v with
    | null => exact .null
    | boolean b =>
        cases h
        exact .no
    | number n =>
        rw [isTruthy, Bool.not_eq_false'] at h
        exact .zero (Number.isZero_iff.mp h)
    | string s =>
        rw [isTruthy, Bool.not_eq_false', String.isEmpty_iff] at h
        subst h
        exact .emptyText
    | array items =>
        rw [isTruthy, Bool.not_eq_false', List.isEmpty_iff] at h
        subst h
        exact .emptyArray
    | object members =>
        rw [isTruthy, Bool.not_eq_false', List.isEmpty_iff] at h
        subst h
        exact .emptyObject
  · intro h
    cases h with
    | zero hn =>
        rw [isTruthy, Number.isZero_iff.mpr hn]
        rfl
    | _ => rfl

end TemplateGate.Json

namespace TemplateGate

open Json

/-! ## Properties of a resource -/

namespace Resource

/-- Descending through members is following the path from their object. -/
theorem descend_eq_some_iff {w : Value} : ∀ {path : List String} {members : Members},
    path ≠ [] → (descend members path = some w ↔ Value.At path (.object members) w)
  | [], _, h => absurd rfl h
  | [key], members, _ => Value.at_singleton_iff.symm
  | key :: next :: rest, members, _ => by
      rw [descend, Value.at_cons_iff]
      · split
        · rename_i inner hget
          rw [descend_eq_some_iff (by simp)]
          constructor
          · exact fun h => ⟨_, hget, h⟩
          · rintro ⟨v, hget', h⟩
            rw [hget] at hget'
            cases hget'
            exact h
        · rename_i hno
          constructor
          · exact fun h => by cases h
          · rintro ⟨v, hget, h⟩
            obtain ⟨inner, rfl⟩ := h.object
            exact absurd hget (hno inner)
      · exact fun h => by cases h

theorem property?_eq_some_iff {r : Resource} {path : List String} {w : Value} (h : path ≠ []) :
    r.property? path = some w ↔ Value.At path (.object r.properties) w :=
  descend_eq_some_iff h

end Resource

end TemplateGate
