/-
# `Dictionary` — finite maps from names, kept in the order of the names

Abbreviations, tables of sizes and the entries of a configuration are
maps from texts, and every place that walks through one does so in the
order of the keys, code point by code point, whatever order they were
written in.  So the order belongs to the type: a dictionary is a list of
entries whose keys increase strictly, and two dictionaries with the same
entries are equal.

`get?_insert` is the one law everything else about lookups follows from.
-/

namespace TemplateGate

/-- Keys increase strictly from each entry to every later one. -/
def Increasing {α : Type} (entries : List (String × α)) : Prop :=
  entries.Pairwise fun a b => a.1 < b.1

/-- A finite map from texts, as its entries in increasing order of the keys. -/
structure Dictionary (α : Type) where
  entries : List (String × α)
  increasing : Increasing entries

namespace Dictionary

variable {α : Type}

instance [BEq α] : BEq (Dictionary α) := ⟨fun a b => a.entries == b.entries⟩

instance [DecidableEq α] : DecidableEq (Dictionary α) := fun a b =>
  decidable_of_iff (a.entries = b.entries)
    ⟨fun h => by cases a; cases b; simp_all, fun h => h ▸ rfl⟩

/-- The map without entries. -/
def empty : Dictionary α := ⟨[], .nil⟩

instance : Inhabited (Dictionary α) := ⟨empty⟩

/-- The number of entries. -/
def size (d : Dictionary α) : Nat := d.entries.length

/-- The value of the first entry with a key. -/
def lookup (key : String) : List (String × α) → Option α
  | [] => none
  | (k, v) :: rest => if k = key then some v else lookup key rest

/-- The value under a key. -/
def get? (d : Dictionary α) (key : String) : Option α := lookup key d.entries

/-- Puts an entry in its place, over an entry with the same key if there is one. -/
def insertEntry (key : String) (value : α) : List (String × α) → List (String × α)
  | [] => [(key, value)]
  | (k, v) :: rest =>
      if key < k then (key, value) :: (k, v) :: rest
      else if key = k then (key, value) :: rest
      else (k, v) :: insertEntry key value rest

theorem fst_mem_insertEntry {key : String} {value : α} {e : String × α} :
    ∀ {entries : List (String × α)}, e ∈ insertEntry key value entries →
      e = (key, value) ∨ e ∈ entries
  | [], h => by simpa [insertEntry] using h
  | (k, v) :: rest, h => by
      unfold insertEntry at h
      split at h
      · simpa using h
      · split at h
        · rcases List.mem_cons.mp h with h | h
          · exact .inl h
          · exact .inr (List.mem_cons_of_mem _ h)
        · rcases List.mem_cons.mp h with h | h
          · exact .inr (h ▸ List.mem_cons_self)
          · exact (fst_mem_insertEntry h).imp_right (List.mem_cons_of_mem _)

theorem increasing_insertEntry {key : String} {value : α} :
    ∀ {entries : List (String × α)}, Increasing entries →
      Increasing (insertEntry key value entries)
  | [], _ => by simp [insertEntry, Increasing]
  | (k, v) :: rest, h => by
      have hrest : Increasing rest := (List.pairwise_cons.mp h).2
      have hhead := (List.pairwise_cons.mp h).1
      unfold insertEntry
      split
      · rename_i hlt
        refine List.pairwise_cons.mpr ⟨fun e he => ?_, h⟩
        rcases List.mem_cons.mp he with rfl | he
        · exact hlt
        · exact String.lt_trans hlt (hhead e he)
      · rename_i hnlt
        split
        · rename_i heq
          exact List.pairwise_cons.mpr ⟨fun e he => heq ▸ hhead e he, hrest⟩
        · rename_i hne
          refine List.pairwise_cons.mpr ⟨fun e he => ?_, increasing_insertEntry hrest⟩
          rcases fst_mem_insertEntry he with rfl | he
          · have hle : k ≤ key := String.not_lt.mp hnlt
            exact String.not_le.mp fun hle' => hne (String.le_antisymm hle' hle)
          · exact hhead e he

/-- The map with one entry added or replaced. -/
def insert (d : Dictionary α) (key : String) (value : α) : Dictionary α :=
  ⟨insertEntry key value d.entries, increasing_insertEntry d.increasing⟩

/-- The map that a list of entries stands for; of two with one key the later counts. -/
def ofList (entries : List (String × α)) : Dictionary α :=
  entries.foldl (fun d e => d.insert e.1 e.2) empty

/-- The map with every value replaced by its image. -/
def map {β : Type} (f : α → β) (d : Dictionary α) : Dictionary β :=
  ⟨d.entries.map fun e => (e.1, f e.2), by
    have := d.increasing
    unfold Increasing at this ⊢
    rw [List.pairwise_map]
    exact this⟩

/-- The first map overlaid with the second: where both have a key the second counts. -/
def overlay (d top : Dictionary α) : Dictionary α :=
  top.entries.foldl (fun d e => d.insert e.1 e.2) d

theorem lookup_insertEntry {key key' : String} {value : α} :
    ∀ {entries : List (String × α)}, Increasing entries →
      lookup key' (insertEntry key value entries) =
        if key = key' then some value else lookup key' entries
  | [], _ => by simp [insertEntry, lookup]
  | (k, v) :: rest, h => by
      have hrest : Increasing rest := (List.pairwise_cons.mp h).2
      unfold insertEntry
      split
      · simp [lookup]
      · split
        · rename_i heq
          subst heq
          by_cases hk : key = key' <;> simp [lookup, hk]
        · rename_i hne
          rw [lookup, lookup_insertEntry hrest]
          by_cases hk : k = key'
          · subst hk
            simp [lookup, hne]
          · simp [lookup, hk]

/-- A lookup after an insertion sees the inserted value under its key and
everything else as before. -/
theorem get?_insert (d : Dictionary α) (key key' : String) (value : α) :
    (d.insert key value).get? key' = if key = key' then some value else d.get? key' :=
  lookup_insertEntry d.increasing

@[simp] theorem get?_empty (key : String) : (empty : Dictionary α).get? key = none := rfl

end Dictionary

end TemplateGate
