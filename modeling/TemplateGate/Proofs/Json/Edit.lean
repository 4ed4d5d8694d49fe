/-
# `Proofs.Json.Edit` — a value with something else at the end of a path

`Value.setAt` puts a value at the end of a path of keys.  Where the path has
not led anywhere before, objects are made on the way, in place of whatever
was there; every other member of an object that was there stays.

Two laws say what that means for any other path followed from the changed
value: the path itself leads to what was put there (`at_setAt`), and a path
that neither begins with it nor is the beginning of it leads where it led
before (`at_setAt_iff`).  `Resource.setProperty` is the same for the
properties of a resource.
-/
import TemplateGate.Proofs.Json.Path

namespace TemplateGate.Json.Value

/-- The members a value has as an object; none if it is something else. -/
def membersOrNone (v : Value) : Members := v.members?.getD []

/-- A value with another one at the end of a path.  What is missing on the
way, or is no object, gives way to an object. -/
def setAt (new : Value) : List String → Value → Value
  | [], _ => new
  | key :: rest, v =>
      .object (v.membersOrNone.set key (setAt new rest ((v.membersOrNone.get? key).getD .null)))

/-- Only objects have members, so a path leads on through the members of a value. -/
theorem at_cons_iff_membersOrNone {key : String} {path : List String} {v w : Value} :
    At (key :: path) v w ↔ ∃ u, v.membersOrNone.get? key = some u ∧ At path u w := by
  cases v with
  | object members => exact at_cons_iff
  | _ =>
      constructor
      · intro h
        obtain ⟨members, hmembers⟩ := h.object
        cases hmembers
      · rintro ⟨u, hget, -⟩
        cases hget

theorem at_setAt (new : Value) : ∀ (path : List String) (v : Value), At path (setAt new path v) new
  | [], _ => .here
  | key :: rest, v => by
      refine .step ?_ (at_setAt new rest ((v.membersOrNone.get? key).getD .null))
      rw [Members.get?_set, if_pos rfl]

/-- A path that parts from the one that was set leads where it led before. -/
theorem at_setAt_iff {new : Value} {path : List String} : ∀ {other : List String} {v w : Value},
    ¬ path <+: other → ¬ other <+: path → (At other (setAt new path v) w ↔ At other v w) := by
  induction path with
  | nil =>
      intro other v w hpath _
      exact absurd List.nil_prefix hpath
  | cons key rest ih =>
      intro other v w hpath hother
      cases other with
      | nil => exact absurd List.nil_prefix hother
      | cons key' rest' =>
          rw [setAt, at_cons_iff, at_cons_iff_membersOrNone, Members.get?_set]
          by_cases hkey : key = key'
          · subst hkey
            have hrest := ih (v := (v.membersOrNone.get? key).getD .null) (w := w)
              (fun h => hpath (List.cons_prefix_cons.mpr ⟨rfl, h⟩))
              (fun h => hother (List.cons_prefix_cons.mpr ⟨rfl, h⟩))
            rw [if_pos rfl]
            cases hget : v.membersOrNone.get? key with
            | some u =>
                rw [hget] at hrest
                simpa using hrest
            | none =>
                -- Nothing was there, so the other path led nowhere and still does.
                have hnowhere : ¬ At rest' .null w := by
                  intro h
                  cases rest' with
                  | nil => exact hother (List.cons_prefix_cons.mpr ⟨rfl, List.nil_prefix⟩)
                  | cons _ _ =>
                      obtain ⟨members, hmembers⟩ := h.object
                      cases hmembers
                rw [hget] at hrest
                simpa using mt hrest.mp hnowhere
          · rw [if_neg hkey]

end TemplateGate.Json.Value

namespace TemplateGate.Resource

open Json

variable {r : Resource} {new : Value} {path other : List String}

/-- A resource with one of its properties set. -/
def setProperty (path : List String) (new : Value) (r : Resource) : Resource :=
  { r with properties := (Value.setAt new path (.object r.properties)).membersOrNone }

theorem object_properties_setProperty (h : path ≠ []) :
    .object (r.setProperty path new).properties =
      Value.setAt new path (.object r.properties) := by
  obtain ⟨key, rest, rfl⟩ := List.exists_cons_of_ne_nil h
  rfl

theorem property?_setProperty (h : path ≠ []) :
    (r.setProperty path new).property? path = some new := by
  rw [property?_eq_some_iff h, object_properties_setProperty h]
  exact Value.at_setAt new path _

theorem property?_setProperty_of_not_prefix (hpath : ¬ path <+: other)
    (hother : ¬ other <+: path) : (r.setProperty path new).property? other = r.property? other := by
  have hne : path ≠ [] := by
    rintro rfl
    exact hpath List.nil_prefix
  have hne' : other ≠ [] := by
    rintro rfl
    exact hother List.nil_prefix
  refine Option.ext fun w => ?_
  rw [property?_eq_some_iff hne', property?_eq_some_iff hne', object_properties_setProperty hne]
  exact Value.at_setAt_iff hpath hother

end TemplateGate.Resource
