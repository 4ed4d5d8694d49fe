/-
# `Proofs.Property` — looking a property up is a descent

`Value.At` follows a path of keys one key at a time.  `Value.Chain` says the
same of all the values on the way at once, without recursion: every value but
the last is an object, and the next value is what it has under the next key.
Both describe what `Resource.property?` returns, although it treats the first
key in another way than the later ones.

Paths that are put together are followed one after the other
(`property?_append_eq_some_iff`), and of the properties only what stands under
the first key counts (`property?_congr_head`), so a key that is repeated
further down is a key of another object and does no harm.
-/
import TemplateGate.Proofs.Json.Path

namespace TemplateGate

open Json

/-! ## Chains of values -/

namespace Json.Value

/-- The values on the way along a path of keys.  Each of them but the last is
an object, which has the next value under the next key. -/
structure Chain (path : List String) (chain : List Value) : Prop where
  length : chain.length = path.length + 1
  links : ∀ (i : Nat) (key : String) (v w : Value), path[i]? = some key → chain[i]? = some v →
    chain[i + 1]? = some w → ∃ members : Members, v = .object members ∧ members.get? key = some w

variable {key : String} {path p q : List String} {chain : List Value} {v w : Value}

theorem chain_nil_iff : Chain [] chain ↔ ∃ v, chain = [v] := by
  constructor
  · intro h
    exact List.length_eq_one_iff.mp h.length
  · rintro ⟨v, rfl⟩
    exact ⟨rfl, fun i key v w hkey => by simp at hkey⟩

theorem chain_cons_iff : Chain (key :: path) chain ↔
    ∃ (members : Members) (w : Value) (rest : List Value), chain = .object members :: w :: rest ∧
      members.get? key = some w ∧ Chain path (w :: rest) := by
  constructor
  · intro h
    match chain, h with
    | [], h => cases h.length
    | [_], h => cases h.length
    | v :: w :: rest, h =>
        obtain ⟨members, rfl, hget⟩ := h.links 0 key v w rfl rfl rfl
        refine ⟨members, w, rest, rfl, hget, Nat.succ.inj h.length, ?_⟩
        intro i
        exact h.links (i + 1)
  · rintro ⟨members, w, rest, rfl, hget, hrest⟩
    refine ⟨congrArg Nat.succ hrest.length, ?_⟩
    intro i key' v' w' hkey hv hw
    cases i with
    | zero =>
        cases hkey
        cases hv
        cases hw
        exact ⟨members, rfl, hget⟩
    | succ i => exact hrest.links i key' v' w' hkey hv hw

/-- A path leads from one value to another exactly if there is a chain between them. -/
theorem at_iff_exists_chain :
    At path v w ↔ ∃ chain, Chain path chain ∧ chain.head? = some v ∧ chain.getLast? = some w := by
  induction path generalizing v with
  | nil =>
      rw [at_nil_iff]
      constructor
      · rintro rfl
        exact ⟨[w], chain_nil_iff.mpr ⟨w, rfl⟩, rfl, rfl⟩
      · rintro ⟨chain, hchain, hhead, hlast⟩
        obtain ⟨u, rfl⟩ := chain_nil_iff.mp hchain
        cases hhead
        cases hlast
        rfl
  | cons key path ih =>
      constructor
      · intro h
        obtain ⟨members, rfl⟩ := h.object
        obtain ⟨u, hget, hrest⟩ := at_cons_iff.mp h
        obtain ⟨chain, hchain, hhead, hlast⟩ := ih.mp hrest
        obtain ⟨rest, rfl⟩ := List.head?_eq_some_iff.mp hhead
        refine ⟨.object members :: u :: rest, ?_, rfl, ?_⟩
        · exact chain_cons_iff.mpr ⟨members, u, rest, rfl, hget, hchain⟩
        · rw [List.getLast?_cons_cons]
          exact hlast
      · rintro ⟨chain, hchain, hhead, hlast⟩
        obtain ⟨members, u, rest, rfl, hget, hrest⟩ := chain_cons_iff.mp hchain
        cases hhead
        rw [List.getLast?_cons_cons] at hlast
        exact at_cons_iff.mpr ⟨u, hget, ih.mpr ⟨u :: rest, hrest, rfl, hlast⟩⟩

theorem at_append_iff : At (p ++ q) v w ↔ ∃ u, At p v u ∧ At q u w := by
  induction p generalizing v with
  | nil =>
      constructor
      · intro h
        exact ⟨v, .here, h⟩
      · rintro ⟨u, hu, h⟩
        rw [at_nil_iff.mp hu] at h
        exact h
  | cons key p ih =>
      constructor
      · intro h
        obtain ⟨members, rfl⟩ := At.object h
        obtain ⟨x, hget, hrest⟩ := at_cons_iff.mp h
        obtain ⟨u, hu, hw⟩ := ih.mp hrest
        exact ⟨u, .step hget hu, hw⟩
      · rintro ⟨u, hu, hw⟩
        obtain ⟨members, rfl⟩ := hu.object
        obtain ⟨x, hget, hrest⟩ := at_cons_iff.mp hu
        exact .step hget (ih.mpr ⟨u, hrest, hw⟩)

end Json.Value

/-! ## Properties -/

namespace Resource

variable {r r' : Resource} {p q : List String} {v : Value}

theorem property?_nil (r : Resource) : r.property? [] = none := rfl

theorem property?_eq_some_iff_exists_chain {path : List String} :
    r.property? path = some v ↔ path ≠ [] ∧ ∃ chain, Value.Chain path chain ∧
      chain.head? = some (.object r.properties) ∧ chain.getLast? = some v := by
  cases path with
  | nil =>
      rw [property?_nil]
      simp
  | cons key path =>
      have hpath : key :: path ≠ [] := List.cons_ne_nil key path
      rw [property?_eq_some_iff hpath, Value.at_iff_exists_chain]
      exact (and_iff_right hpath).symm

/-- The property at two paths put together is one of an object at the first. -/
theorem property?_append_eq_some_iff (hp : p ≠ []) (hq : q ≠ []) :
    r.property? (p ++ q) = some v ↔ ∃ members, r.property? p = some (.object members) ∧
      ∀ r' : Resource, r'.properties = members → r'.property? q = some v := by
  have hpq : p ++ q ≠ [] := List.append_ne_nil_of_left_ne_nil hp q
  rw [property?_eq_some_iff hpq, Value.at_append_iff]
  constructor
  · rintro ⟨u, hu, hv⟩
    obtain ⟨key, rest, rfl⟩ := List.exists_cons_of_ne_nil hq
    obtain ⟨members, rfl⟩ := hv.object
    refine ⟨members, (property?_eq_some_iff hp).mpr hu, ?_⟩
    rintro r' rfl
    exact (property?_eq_some_iff hq).mpr hv
  · rintro ⟨members, hmembers, hv⟩
    have hq' := hv { r with properties := members } rfl
    exact ⟨_, (property?_eq_some_iff hp).mp hmembers, (property?_eq_some_iff hq).mp hq'⟩

/-- Of the properties only the value under the first key of a path counts. -/
theorem property?_congr_head {key : String}
    (h : r.properties.get? key = r'.properties.get? key) (rest : List String) :
    r.property? (key :: rest) = r'.property? (key :: rest) := by
  refine Option.ext fun v => ?_
  have hpath : key :: rest ≠ [] := List.cons_ne_nil key rest
  rw [property?_eq_some_iff hpath, property?_eq_some_iff hpath, Value.at_cons_iff,
    Value.at_cons_iff, h]

/-- Looking a property up is exactly a descent through nested objects, it goes
along a path piece by piece, and it depends on nothing but the value under the
first key. -/
theorem property_descends :
    (∀ (r : Resource) (path : List String) (v : Value), r.property? path = some v ↔
      path ≠ [] ∧ ∃ chain, Value.Chain path chain ∧
        chain.head? = some (.object r.properties) ∧ chain.getLast? = some v) ∧
    (∀ (r : Resource) (p q : List String), p ≠ [] → q ≠ [] → ∀ v : Value,
      r.property? (p ++ q) = some v ↔ ∃ members, r.property? p = some (.object members) ∧
        ∀ r' : Resource, r'.properties = members → r'.property? q = some v) ∧
    (∀ (r r' : Resource) (path : List String) (key : String), path.head? = some key →
      r.properties.get? key = r'.properties.get? key → r.property? path = r'.property? path) := by
  refine ⟨fun r path v => property?_eq_some_iff_exists_chain, ?_, ?_⟩
  · intro r p q hp hq v
    exact property?_append_eq_some_iff hp hq
  · intro r r' path key hkey h
    obtain ⟨rest, rfl⟩ := List.head?_eq_some_iff.mp hkey
    exact property?_congr_head h rest

/-- A resource whose properties have one key on three levels, and a value beside
it on each. -/
def nested (other : Value) : Resource where
  name := ""
  type := ""
  properties := [("blob", .object [("blob", .object [("blob", .boolean true),
    ("services", .null)]), ("services", .string "")]), ("services", other)]
  sku := none

/-- The key is followed through all three levels, in one go or in two, and the
value beside it on the first level makes no difference. -/
theorem property_of_nested :
    (∃ chain, Value.Chain ["blob", "blob", "blob"] chain ∧
      chain.head? = some (.object (nested .null).properties) ∧
        chain.getLast? = some (.boolean true)) ∧
    (∃ members, (nested .null).property? ["blob", "blob"] = some (.object members) ∧
      ∀ r' : Resource, r'.properties = members → r'.property? ["blob"] = some (.boolean true)) ∧
    (nested .null).property? ["blob", "services"] =
      (nested (.object [])).property? ["blob", "services"] := by
  obtain ⟨hchain, happend, hcongr⟩ := property_descends
  have hfound : (nested .null).property? (["blob", "blob"] ++ ["blob"]) =
      some (.boolean true) := rfl
  have hne : ["blob"] ≠ [] := List.cons_ne_nil _ _
  have hne' : ["blob", "blob"] ≠ [] := List.cons_ne_nil _ _
  refine ⟨((hchain _ _ _).mp hfound).2, (happend _ _ _ hne' hne _).mp hfound, ?_⟩
  exact hcongr _ _ _ "blob" rfl rfl

end Resource

end TemplateGate
