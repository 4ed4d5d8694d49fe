/-
# `Proofs.Json.Members` — the members of an object

What stands under a key is the first member that has it, and setting a
member changes that one or adds it at the end.  Where all keys are
different, being a member and being found under a key are the same thing
(`get?_eq_some_of_mem`, `mem_of_get?`); and setting keeps them different,
one member at a time (`nodup_keys_set`) or many (`nodup_keys_setAll`).
An object merged into another one is known by its look-ups (`get?_setAll`)
and by the order of its keys (`keys_setAll`).
-/
import TemplateGate.Json.Value

namespace TemplateGate.Json.Members

/-! ## Look-ups -/

theorem mem_of_get? {k : String} {v : Value} {ms : Members} (h : ms.get? k = some v) :
    (k, v) ∈ ms := by
  induction ms with
  | nil => cases h
  | cons m ms ih =>
      rw [get?] at h
      split at h
      · rename_i heq
        cases h
        exact heq ▸ List.mem_cons_self
      · exact List.mem_cons_of_mem m (ih h)

theorem get?_eq_some_of_mem {k : String} {v : Value} {ms : Members} (hkeys : ms.keys.Nodup)
    (h : (k, v) ∈ ms) : ms.get? k = some v := by
  induction ms with
  | nil => cases h
  | cons m ms ih =>
      rw [keys, List.map_cons, List.nodup_cons] at hkeys
      rw [get?]
      rcases List.mem_cons.mp h with heq | h
      · cases heq
        rw [if_pos rfl]
      · rw [if_neg, ih hkeys.2 h]
        intro heq
        exact hkeys.1 (heq ▸ List.mem_map.mpr ⟨_, h, rfl⟩)

theorem get?_eq_none_iff {k : String} {ms : Members} : ms.get? k = none ↔ k ∉ ms.keys := by
  induction ms with
  | nil => simp [get?, keys]
  | cons m ms ih =>
      rw [get?, keys, List.map_cons, List.mem_cons, not_or, ← keys, ← ih]
      by_cases h : m.1 = k
      · rw [if_pos h]
        exact ⟨fun hsome => absurd hsome (Option.some_ne_none _), fun hne => absurd h.symm hne.1⟩
      · rw [if_neg h]
        exact ⟨fun hnone => ⟨Ne.symm h, hnone⟩, And.right⟩

theorem get?_append (k : String) (ms ms' : Members) :
    get? k (ms' ++ ms) = (get? k ms').or (get? k ms) := by
  induction ms' with
  | nil => rfl
  | cons m ms' ih =>
      rw [List.cons_append, get?, get?]
      split
      · rfl
      · exact ih

/-! ## Members that are set -/

theorem keys_set (k : String) (v : Value) (ms : Members) :
    (ms.set k v).keys = if k ∈ ms.keys then ms.keys else ms.keys ++ [k] := by
  induction ms with
  | nil => rfl
  | cons m ms ih =>
      obtain ⟨k', v'⟩ := m
      by_cases h : k' = k
      · subst h
        simp [set, keys]
      · unfold keys at ih ⊢
        rw [set, if_neg h, List.map_cons, ih]
        by_cases hk : k ∈ ms.map (·.1)
        · simp [hk]
        · simp [hk, Ne.symm h]

theorem nodup_keys_set {k : String} {v : Value} {ms : Members} (h : ms.keys.Nodup) :
    (ms.set k v).keys.Nodup := by
  rw [keys_set]
  split
  · exact h
  · rename_i hk
    refine List.nodup_append.mpr ⟨h, List.pairwise_singleton _ k, fun a ha b hb => ?_⟩
    rintro rfl
    exact hk (List.mem_singleton.mp hb ▸ ha)

theorem mem_set {k : String} {v : Value} {m : String × Value} {ms : Members}
    (h : m ∈ ms.set k v) : m = (k, v) ∨ m ∈ ms := by
  induction ms with
  | nil => exact .inl (List.mem_singleton.mp h)
  | cons m' ms ih =>
      rw [set] at h
      split at h
      · rename_i heq
        rcases List.mem_cons.mp h with h | h
        · exact .inl (heq ▸ h)
        · exact .inr (List.mem_cons_of_mem _ h)
      · rcases List.mem_cons.mp h with h | h
        · exact .inr (h ▸ List.mem_cons_self)
        · exact (ih h).imp_right (List.mem_cons_of_mem _)

theorem set_of_not_mem {k : String} {v : Value} {ms : Members} (h : k ∉ ms.keys) :
    ms.set k v = ms ++ [(k, v)] := by
  induction ms with
  | nil => rfl
  | cons m ms ih =>
      rw [keys, List.map_cons, List.mem_cons, not_or] at h
      rw [set, if_neg (Ne.symm h.1), ih h.2]
      rfl

theorem nodup_keys_setAll {extra : Members} : ∀ {ms : Members}, ms.keys.Nodup →
    (ms.setAll extra).keys.Nodup := by
  induction extra with
  | nil => exact fun h => h
  | cons _ extra ih => exact fun h => ih (nodup_keys_set h)

theorem setAll_append_of_nodup {extra : Members} : ∀ {ms : Members},
    (ms.keys ++ extra.keys).Nodup → ms.setAll extra = ms ++ extra := by
  induction extra with
  | nil => exact fun _ => (List.append_nil _).symm
  | cons m extra ih =>
      intro ms h
      have hnew : m.1 ∉ ms.keys := fun hm =>
        (List.nodup_append.mp h).2.2 _ hm _ List.mem_cons_self rfl
      have hstep : ms.set m.1 m.2 = ms ++ [m] := set_of_not_mem hnew
      rw [setAll, List.foldl_cons, hstep, ← setAll, ih, List.append_assoc, List.singleton_append]
      simpa [keys] using h

theorem mem_setAll {m : String × Value} {extra : Members} : ∀ {ms : Members},
    m ∈ ms.setAll extra → m ∈ extra ∨ m ∈ ms := by
  induction extra with
  | nil => exact fun h => .inr h
  | cons e extra ih =>
      intro ms h
      rcases ih h with h | h
      · exact .inl (List.mem_cons_of_mem e h)
      · rcases mem_set h with rfl | h
        · exact .inl List.mem_cons_self
        · exact .inr h

/-- What is set counts, and behind it what was there. -/
theorem get?_setAll {k : String} {extra : Members} (hextra : extra.keys.Nodup) :
    ∀ ms : Members, (ms.setAll extra).get? k = (extra.get? k).or (ms.get? k) := by
  induction extra with
  | nil => exact fun _ => rfl
  | cons m extra ih =>
      intro ms
      obtain ⟨hnew, hextra⟩ := List.nodup_cons.mp hextra
      have hstep : ms.setAll (m :: extra) = (ms.set m.1 m.2).setAll extra := rfl
      rw [hstep, ih hextra, get?_set, get?]
      by_cases h : m.1 = k
      · rw [if_pos h, if_pos h, get?_eq_none_iff.mpr (h ▸ hnew)]
        rfl
      · rw [if_neg h, if_neg h]

/-- Keys that are there keep their places, and the others follow in their order. -/
theorem keys_setAll {extra : Members} (hextra : extra.keys.Nodup) :
    ∀ ms : Members, (ms.setAll extra).keys = ms.keys ++ extra.keys.filter (· ∉ ms.keys) := by
  induction extra with
  | nil => exact fun ms => (List.append_nil _).symm
  | cons m extra ih =>
      intro ms
      obtain ⟨hnew, hextra⟩ := List.nodup_cons.mp hextra
      have hstep : ms.setAll (m :: extra) = (ms.set m.1 m.2).setAll extra := rfl
      have hkeys : keys (m :: extra) = m.1 :: keys extra := rfl
      rw [hstep, ih hextra, keys_set, hkeys]
      by_cases h : m.1 ∈ ms.keys
      · rw [if_pos h, List.filter_cons_of_neg (by simpa using h)]
      · -- No later key is this one, so that it is there by now makes no difference.
        have hfilter : (keys extra).filter (· ∉ ms.keys ++ [m.1]) =
            (keys extra).filter (· ∉ ms.keys) := by
          refine List.filter_congr fun k hk => ?_
          have hne : k ≠ m.1 := by
            rintro rfl
            exact hnew hk
          simp [hne]
        rw [if_neg h, hfilter, List.filter_cons_of_pos (by simpa using h), List.append_assoc]
        rfl

end TemplateGate.Json.Members
