/-
# `Proofs.Dictionary` — dictionaries as functions from keys

A dictionary is a sorted list, but what is asked of one is which entries
it has and what stands under a key.  `mem_entries_iff` says that these are
the same question: keys increase strictly, so no entry hides another.  For
the same reason the entries of a smaller dictionary stand among those of a
larger one in their order (`sublist_entries`), and what stands under the
keys is all there is to a dictionary (`ext_get?`).  From `mem_entries_iff`
follow the laws of the two ways dictionaries are put together, by inserting
entries one after the other and by overlaying one with another.

A list of entries may repeat a key; the dictionary of it has the last value
(`get?_ofList_eq_some_iff`).  If it repeats none, the order of the entries
makes no difference (`ofList_eq_of_perm`).
-/
import Mathlib.Data.List.Induction
import Mathlib.Data.List.Perm.Basic
import Mathlib.Data.List.Sort
import TemplateGate.Dictionary

namespace TemplateGate.Dictionary

variable {α : Type}

/-! ## Entries and look-ups -/

theorem mem_of_lookup_eq_some {key : String} {value : α} {entries : List (String × α)} :
    lookup key entries = some value → (key, value) ∈ entries := by
  intro h
  induction entries with
  | nil => cases h
  | cons e rest ih =>
      rw [lookup] at h
      split at h
      · rename_i hk
        cases h
        exact hk ▸ List.mem_cons_self
      · exact List.mem_cons_of_mem e (ih h)

theorem lookup_eq_some_of_mem {key : String} {value : α} {entries : List (String × α)} :
    Increasing entries → (key, value) ∈ entries → lookup key entries = some value := by
  intro hinc h
  induction entries with
  | nil => exact absurd h List.not_mem_nil
  | cons e rest ih =>
      obtain ⟨k, v⟩ := e
      obtain ⟨hhead, hrest⟩ := List.pairwise_cons.mp hinc
      rw [lookup]
      rcases List.mem_cons.mp h with heq | hmem
      · cases heq
        exact if_pos rfl
      · have hne : k ≠ key := fun hk => String.lt_irrefl key (hk ▸ hhead _ hmem)
        rw [if_neg hne]
        exact ih hrest hmem

theorem lookup_eq_none_of_not_mem {key : String} {entries : List (String × α)}
    (h : key ∉ entries.map (·.1)) : lookup key entries = none := by
  cases hlook : lookup key entries with
  | none => rfl
  | some value => exact absurd (List.mem_map.mpr ⟨_, mem_of_lookup_eq_some hlook, rfl⟩) h

theorem mem_entries_iff {d : Dictionary α} {key : String} {value : α} :
    (key, value) ∈ d.entries ↔ d.get? key = some value :=
  ⟨lookup_eq_some_of_mem d.increasing, mem_of_lookup_eq_some⟩

theorem nodup_keys (d : Dictionary α) : (d.entries.map (·.1)).Nodup := by
  refine List.pairwise_map.mpr (d.increasing.imp fun {a b} hlt heq => ?_)
  exact String.lt_irrefl a.1 (heq ▸ hlt)

/-- A dictionary with no entries but those of another has them in the same order. -/
theorem sublist_entries {d e : Dictionary α} (h : ∀ x ∈ d.entries, x ∈ e.entries) :
    d.entries.Sublist e.entries := by
  have hnodup : d.entries.Nodup := List.Nodup.of_map _ d.nodup_keys
  have hantisymm : Std.Antisymm fun a b : String × α => a.1 < b.1 :=
    ⟨fun _ _ hab hba => absurd hba (String.lt_asymm hab)⟩
  exact List.sublist_of_subperm_of_pairwise (List.subperm_of_subset hnodup h) d.increasing
    e.increasing

theorem ext_get? {d e : Dictionary α} (h : ∀ key, d.get? key = e.get? key) : d = e := by
  have hentries : ∀ x, x ∈ d.entries ↔ x ∈ e.entries := by
    rintro ⟨key, value⟩
    rw [mem_entries_iff, mem_entries_iff, h]
  have heq : d.entries = e.entries :=
    (sublist_entries fun x hx => (hentries x).mp hx).antisymm
      (sublist_entries fun x hx => (hentries x).mpr hx)
  cases d
  cases e
  cases heq
  rfl

/-! ## Insertions and overlays -/

/-- After a series of insertions under different keys each of them has its value. -/
theorem get?_foldl_insert {key : String} {entries : List (String × α)} :
    ∀ {d : Dictionary α}, (entries.map (·.1)).Nodup →
      (entries.foldl (fun d e => d.insert e.1 e.2) d).get? key =
        (lookup key entries).or (d.get? key) := by
  induction entries with
  | nil =>
      intro d _
      simp [lookup]
  | cons e rest ih =>
      intro d hkeys
      obtain ⟨k, v⟩ := e
      obtain ⟨hhead, hrest⟩ := List.nodup_cons.mp hkeys
      rw [List.foldl_cons, ih hrest, get?_insert, lookup]
      by_cases hk : k = key
      · subst hk
        -- The key is not inserted again.
        simp [lookup_eq_none_of_not_mem hhead]
      · simp [hk]

theorem get?_overlay (d top : Dictionary α) (key : String) :
    (d.overlay top).get? key = (top.get? key).or (d.get? key) :=
  get?_foldl_insert top.nodup_keys

/-! ## Lists of entries -/

/-- Of the entries with a key the last one has a value. -/
def IsLast (entries : List (String × α)) (key : String) (value : α) : Prop :=
  ∃ before after, entries = before ++ (key, value) :: after ∧ key ∉ after.map (·.1)

theorem isLast_append_singleton_iff {entries : List (String × α)} {e : String × α} {key : String}
    {value : α} : IsLast (entries ++ [e]) key value ↔
      if e.1 = key then e.2 = value else IsLast entries key value := by
  constructor
  · rintro ⟨before, after, heq, hlast⟩
    rcases List.eq_nil_or_concat' after with rfl | ⟨after, e', rfl⟩
    · obtain ⟨-, hsame⟩ := List.append_inj' heq rfl
      cases hsame
      rw [if_pos rfl]
    · rw [← List.cons_append, ← List.append_assoc] at heq
      obtain ⟨rfl, hsame⟩ := List.append_inj' heq rfl
      cases hsame
      rw [List.map_append, List.mem_append, not_or] at hlast
      have hne : e.1 ≠ key := fun hkey => hlast.2 (List.mem_singleton.mpr hkey.symm)
      rw [if_neg hne]
      exact ⟨before, after, rfl, hlast.1⟩
  · intro h
    split at h
    · rename_i hkey
      subst hkey h
      exact ⟨entries, [], rfl, List.not_mem_nil⟩
    · rename_i hne
      obtain ⟨before, after, rfl, hlast⟩ := h
      refine ⟨before, after ++ [e], by simp, ?_⟩
      rw [List.map_append, List.mem_append, not_or]
      exact ⟨hlast, fun hmem => hne (List.mem_singleton.mp hmem).symm⟩

/-- To turn the values of entries into others, different ones into different
ones, makes no difference to which entry is the last with its key. -/
theorem isLast_map_iff {β : Type} {f : α → β} (hf : Function.Injective f)
    {entries : List (String × α)} {key : String} {value : α} :
    IsLast (entries.map fun e => (e.1, f e.2)) key (f value) ↔ IsLast entries key value := by
  constructor
  · rintro ⟨before, after, heq, hlast⟩
    obtain ⟨before, rest, rfl, rfl, hrest⟩ := List.map_eq_append_iff.mp heq
    obtain ⟨e, after, rfl, he, rfl⟩ := List.map_eq_cons_iff.mp hrest
    obtain ⟨rfl, hvalue⟩ := Prod.mk.inj he
    rw [List.map_map] at hlast
    exact ⟨before, after, by rw [← hf hvalue], hlast⟩
  · rintro ⟨before, after, rfl, hlast⟩
    refine ⟨before.map fun e => (e.1, f e.2), after.map fun e => (e.1, f e.2), ?_, ?_⟩
    · rw [List.map_append, List.map_cons]
    · rw [List.map_map]
      exact hlast

theorem ofList_append_singleton (entries : List (String × α)) (e : String × α) :
    ofList (entries ++ [e]) = (ofList entries).insert e.1 e.2 := by
  rw [ofList, List.foldl_append]
  rfl

/-- Of several entries with one key the last one counts. -/
theorem get?_ofList_eq_some_iff {entries : List (String × α)} {key : String} {value : α} :
    (ofList entries).get? key = some value ↔ IsLast entries key value := by
  induction entries using List.reverseRecOn with
  | nil =>
      constructor
      · intro h
        cases h
      · rintro ⟨before, after, heq, -⟩
        exact absurd heq.symm (List.append_ne_nil_of_right_ne_nil before (List.cons_ne_nil _ _))
  | append_singleton entries e ih =>
      rw [ofList_append_singleton, get?_insert, isLast_append_singleton_iff]
      split
      · exact Option.some_inj
      · exact ih

theorem mem_entries_ofList_iff {entries : List (String × α)} (h : (entries.map (·.1)).Nodup)
    {e : String × α} : e ∈ (ofList entries).entries ↔ e ∈ entries := by
  obtain ⟨key, value⟩ := e
  rw [mem_entries_iff, get?_ofList_eq_some_iff]
  constructor
  · rintro ⟨before, after, rfl, -⟩
    exact List.mem_append_right before List.mem_cons_self
  · intro hmem
    obtain ⟨before, after, rfl⟩ := List.append_of_mem hmem
    rw [List.map_append, List.map_cons] at h
    exact ⟨before, after, rfl, (List.nodup_cons.mp (List.nodup_append.mp h).2.1).1⟩

theorem perm_entries_ofList {entries : List (String × α)} (h : (entries.map (·.1)).Nodup) :
    (ofList entries).entries.Perm entries :=
  (List.perm_ext_iff_of_nodup (List.Nodup.of_map _ (nodup_keys _)) (List.Nodup.of_map _ h)).mpr
    fun _ => mem_entries_ofList_iff h

theorem ofList_eq_of_perm {entries entries' : List (String × α)}
    (h : (entries.map (·.1)).Nodup) (hperm : entries.Perm entries') :
    ofList entries = ofList entries' := by
  have h' : (entries'.map (·.1)).Nodup := (hperm.map _).nodup_iff.mp h
  refine ext_get? fun key => Option.ext fun value => ?_
  rw [← mem_entries_iff, ← mem_entries_iff, mem_entries_ofList_iff h, mem_entries_ofList_iff h',
    hperm.mem_iff]

theorem ofList_entries (d : Dictionary α) : ofList d.entries = d := by
  refine ext_get? fun key => Option.ext fun value => ?_
  rw [← mem_entries_iff, mem_entries_ofList_iff d.nodup_keys, mem_entries_iff]

end TemplateGate.Dictionary
