/-
# `Proofs.Machine.Files` — what a write does to the files of a machine

Nothing on a machine is ever removed, and no directory becomes a file.  So
a path that leads somewhere leads there still when something was written
elsewhere (`walk_of_keepsDirectories`), and what was written is read back,
also behind later writes to other places.

Directories are made one by one, and an attempt that fails leaves those
behind that were made on the way, `GainsDirectories`.  It touches nothing
that was there and makes no file.

Trees are laid out by planting one entry after the other.  That puts
directories where they are needed, also over files, and the entry behind
them (`entryAt?_plant`).
-/
import Mathlib.Data.List.Infix
import TemplateGate.Machine.FileTree
import TemplateGate.Proofs.Json.Reader
import TemplateGate.Proofs.Path
import TemplateGate.Proofs.Text.Utf8

namespace TemplateGate.FileTree

open Json Text

variable {t t' t₁ t₂ : FileTree} {names : List String} {place : Place} {e : Entry}
  {path text : String} {bytes : List UInt8}

/-! ## Entries -/

theorem find?_putEntry (names names' : List String) (e : Entry) :
    ∀ entries, find? names' (putEntry names e entries) =
      if names = names' then some e else find? names' entries
  | [] => rfl
  | (n, old) :: rest => by
      rw [putEntry]
      by_cases hn : n = names
      · rw [if_pos hn, hn, find?, find?]
        by_cases hnames : names = names'
        · rw [if_pos hnames, if_pos hnames]
        · rw [if_neg hnames, if_neg hnames, if_neg hnames]
      · rw [if_neg hn, find?, find?, find?_putEntry names names' e rest]
        by_cases hn' : n = names'
        · rw [if_pos hn', if_neg fun h => hn (hn'.trans h.symm), if_pos hn']
        · rw [if_neg hn', if_neg hn']

theorem entryAt?_put (h : names ≠ []) (t : FileTree) (e : Entry) (place : Place) :
    (t.put names e).entryAt? place =
      if place = .inside names then some e else t.entryAt? place := by
  cases place with
  | outside => rfl
  | inside names' =>
      cases names' with
      | nil =>
          rw [if_neg fun heq => h (Place.inside.inj heq).symm]
          rfl
      | cons n rest =>
          show find? (n :: rest) (putEntry names e t.entries) = _
          rw [find?_putEntry]
          by_cases hnames : names = n :: rest
          · rw [if_pos hnames, if_pos (congrArg Place.inside hnames.symm)]
          · rw [if_neg hnames, if_neg fun heq => hnames (Place.inside.inj heq).symm]
            rfl

theorem ne_nil_of_entryAt?_ne (h : t.entryAt? (.inside names) ≠ some .directory) : names ≠ [] := by
  rintro rfl
  exact h rfl

/-! ## Trees that grow -/

/-- What is a directory in a tree is one in another. -/
def KeepsDirectories (t t' : FileTree) : Prop :=
  ∀ place, t.entryAt? place = some .directory → t'.entryAt? place = some .directory

/-- A tree has what another one has, and beyond that only directories. -/
def GainsDirectories (t t' : FileTree) : Prop :=
  ∀ place, t'.entryAt? place = t.entryAt? place ∨
    (t.entryAt? place = none ∧ t'.entryAt? place = some .directory)

theorem GainsDirectories.refl (t : FileTree) : t.GainsDirectories t := fun _ => .inl rfl

theorem GainsDirectories.trans (h : t.GainsDirectories t₁) (h' : t₁.GainsDirectories t₂) :
    t.GainsDirectories t₂ := by
  intro place
  rcases h' place with h' | ⟨hnone, h'⟩
  · rw [h']
    exact h place
  · rcases h place with h | ⟨_, h⟩
    · exact .inr ⟨h ▸ hnone, h'⟩
    · rw [h] at hnone
      cases hnone

theorem GainsDirectories.keepsDirectories (h : t.GainsDirectories t') : t.KeepsDirectories t' := by
  intro place hplace
  rcases h place with h | ⟨hnone, _⟩
  · rw [h, hplace]
  · rw [hnone] at hplace
    cases hplace

theorem keepsDirectories_put (h : t.entryAt? (.inside names) ≠ some .directory) (e : Entry) :
    t.KeepsDirectories (t.put names e) := by
  intro place hplace
  rw [entryAt?_put (ne_nil_of_entryAt?_ne h), if_neg, hplace]
  rintro rfl
  exact h hplace

/-! ## Making directories -/

theorem gainsDirectories_of_makeDirectory (h : t.makeDirectory path = .ok t') :
    t.GainsDirectories t' := by
  rw [makeDirectory] at h
  obtain ⟨_, -, h⟩ := bind_eq_ok_iff.mp h
  obtain ⟨target, -, h⟩ := bind_eq_ok_iff.mp h
  split at h
  · rename_i names hnone
    cases h
    intro place
    rw [entryAt?_put (ne_nil_of_entryAt?_ne (by rw [hnone]; nofun))]
    by_cases hplace : place = .inside names
    · subst hplace
      exact .inr ⟨hnone, if_pos rfl⟩
    · exact .inl (if_neg hplace)
  · cases h

theorem gainsDirectories_settle (t : FileTree) (path : String) :
    t.GainsDirectories (t.settle path (t.makeDirectory path)).2 := by
  cases h : t.makeDirectory path with
  | error e => exact .refl t
  | ok t' => exact gainsDirectories_of_makeDirectory h

theorem gainsDirectories_makeDirectoriesWithin (t : FileTree) (fuel : Nat) :
    ∀ path, t.GainsDirectories (t.makeDirectoriesWithin fuel path).2 := by
  induction fuel with
  | zero => exact fun _ => .refl t
  | succ fuel ih =>
      intro path
      have habove : t.GainsDirectories
          ((Path.parent? path).elim (.ok (), t) (t.makeDirectoriesWithin fuel)).2 := by
        cases Path.parent? path with
        | none => exact .refl t
        | some parent => exact ih parent
      unfold makeDirectoriesWithin
      split
      · split
        · rename_i above heq
          rw [heq] at habove
          exact habove.trans (gainsDirectories_settle above path)
        · rename_i heq
          rw [heq] at habove
          exact habove
      · exact gainsDirectories_settle t path

theorem gainsDirectories_makeDirectories (t : FileTree) (path : String) :
    t.GainsDirectories (t.makeDirectories path).2 := by
  rw [makeDirectories]
  split
  · exact .refl t
  · exact gainsDirectories_makeDirectoriesWithin t _ path

/-! ## Walking -/

/-- A step starts at a directory, and needs to know of the tree no more than that. -/
theorem step_of_keepsDirectories (h : t.KeepsDirectories t') {part : String} {target : Place}
    (hstep : t.step place part = .ok target) : t'.step place part = .ok target := by
  unfold step at hstep ⊢
  split at hstep
  · cases hstep
  · cases hstep
  · rename_i hplace
    rw [h place hplace]
    exact hstep

theorem walk_of_keepsDirectories (h : t.KeepsDirectories t') {parts : List String} :
    ∀ {start target : Place}, t.walk start parts = .ok target →
      t'.walk start parts = .ok target := by
  induction parts with
  | nil => exact fun hwalk => hwalk
  | cons part rest ih =>
      intro start target hwalk
      obtain ⟨place, hstep, hwalk⟩ := bind_eq_ok_iff.mp hwalk
      exact bind_eq_ok_iff.mpr ⟨place, step_of_keepsDirectories h hstep, ih hwalk⟩

theorem resolve_of_keepsDirectories (h : t.KeepsDirectories t') {target : Place}
    (hresolve : t.resolve path = .ok target) : t'.resolve path = .ok target := by
  obtain ⟨_, hcheck, hwalk⟩ := bind_eq_ok_iff.mp hresolve
  exact bind_eq_ok_iff.mpr ⟨(), hcheck, walk_of_keepsDirectories h hwalk⟩

theorem walk_append (t : FileTree) (parts parts' : List String) (start : Place) :
    t.walk start (parts ++ parts') = (do t.walk (← t.walk start parts) parts') := by
  induction parts generalizing start with
  | nil => rfl
  | cons part rest ih =>
      rw [List.cons_append, walk, walk]
      cases t.step start part with
      | error e => rfl
      | ok place => exact ih place

/-! ## Writing -/

theorem trimSlashes_eq_self (h : path.endsWith "/" = false) : trimSlashes path = path := by
  rw [← String.endsWith_toSlice, String.Slice.endsWith_string_eq_false_iff] at h
  have hlast : path.toList.reverse.dropWhile (· == '/') = path.toList.reverse := by
    cases hreverse : path.toList.reverse with
    | nil => rfl
    | cons c rest =>
        refine List.dropWhile_cons_of_neg fun hslash => h ⟨rest.reverse, ?_⟩
        have hpath : path.toList = rest.reverse ++ [c] := by
          rw [← List.reverse_reverse path.toList, hreverse, List.reverse_cons]
        rw [String.copy_toSlice, hpath, beq_iff_eq.mp hslash]
        rfl
  rw [trimSlashes, hlast, List.reverse_reverse, String.ofList_toList]

/-- An empty part leads nowhere else, and that only from a directory. -/
theorem eq_of_step_empty {target : Place} (h : t.step place "" = .ok target) : target = place := by
  unfold step at h
  split at h
  · cases h
  · cases h
  · cases h
    rfl

/-- What a write does: it puts a file where the path leads to, where there is
a file or nothing. -/
theorem exists_eq_put_of_write (h : t.write path bytes = .ok t') :
    ∃ names, t.resolve path = .ok (.inside names) ∧
      t.entryAt? (.inside names) ≠ some .directory ∧ t' = t.put names (.file bytes) := by
  obtain ⟨_, hcheck, h⟩ := bind_eq_ok_iff.mp h
  obtain ⟨above, habove, h⟩ := bind_eq_ok_iff.mp h
  split at h
  · cases h
  · rename_i hslash
    obtain ⟨target, htarget, h⟩ := bind_eq_ok_iff.mp h
    rw [trimSlashes_eq_self (Bool.not_eq_true _ ▸ hslash)] at habove htarget
    -- The last part is walked by itself, from a directory.
    obtain ⟨place, hplace, hempty⟩ := bind_eq_ok_iff.mp (walk_append t _ _ _ ▸ habove)
    obtain ⟨_, hstep, hnil⟩ := bind_eq_ok_iff.mp hempty
    cases hnil
    cases eq_of_step_empty hstep
    have hparts : (Path.parts path).dropLast ++ [(Path.parts path).getLast?.getD ""] =
        Path.parts path := by
      rw [List.getLast?_eq_some_getLast (Path.parts_ne_nil path), Option.getD_some,
        List.dropLast_concat_getLast]
    have hresolve : t.resolve path = .ok target := by
      refine bind_eq_ok_iff.mpr ⟨(), hcheck, ?_⟩
      rw [← hparts, walk_append]
      refine bind_eq_ok_iff.mpr ⟨above, hplace, bind_eq_ok_iff.mpr ⟨target, htarget, rfl⟩⟩
    split at h
    · rename_i names old hold
      cases h
      exact ⟨names, hresolve, by rw [hold]; nofun, rfl⟩
    · rename_i names hnone
      cases h
      exact ⟨names, hresolve, by rw [hnone]; nofun, rfl⟩
    · cases h

/-! ## Reading -/

theorem lookup_eq_ok_iff : t.lookup path = .ok e ↔
    ∃ place, t.resolve path = .ok place ∧ t.entryAt? place = some e := by
  constructor
  · intro h
    obtain ⟨place, hresolve, h⟩ := bind_eq_ok_iff.mp h
    split at h
    · rename_i hentry
      cases h
      exact ⟨place, hresolve, hentry⟩
    · cases h
  · rintro ⟨place, hresolve, hentry⟩
    refine bind_eq_ok_iff.mpr ⟨place, hresolve, ?_⟩
    rw [hentry]

theorem readText_of_lookup (h : t.lookup path = .ok (.file (encode text))) :
    t.readText path = .ok text := by
  refine bind_eq_ok_iff.mpr ⟨_, h, ?_⟩
  dsimp only
  rw [decode_encode]

theorem readText_of_entryAt?_eq (h : t.KeepsDirectories t') (hread : t.readText path = .ok text)
    (hsame : ∀ place, t.resolve path = .ok place → t'.entryAt? place = t.entryAt? place) :
    t'.readText path = .ok text := by
  obtain ⟨e, hlookup, htext⟩ := bind_eq_ok_iff.mp hread
  obtain ⟨place, hresolve, hentry⟩ := lookup_eq_ok_iff.mp hlookup
  refine bind_eq_ok_iff.mpr ⟨e, lookup_eq_ok_iff.mpr ⟨place, ?_, ?_⟩, htext⟩
  · exact resolve_of_keepsDirectories h hresolve
  · rw [hsame place hresolve, hentry]

theorem readText_of_gainsDirectories (h : t.GainsDirectories t')
    (hread : t.readText path = .ok text) : t'.readText path = .ok text := by
  obtain ⟨e, hlookup, -⟩ := bind_eq_ok_iff.mp hread
  obtain ⟨place, hresolve, hentry⟩ := lookup_eq_ok_iff.mp hlookup
  refine readText_of_entryAt?_eq h.keepsDirectories hread fun place' hresolve' => ?_
  cases hresolve.symm.trans hresolve'
  rcases h place with hsame | ⟨hnone, -⟩
  · exact hsame
  · rw [hentry] at hnone
    cases hnone

theorem readText_of_write (h : t.write path (encode text) = .ok t') :
    t'.readText path = .ok text := by
  obtain ⟨names, hresolve, hfree, rfl⟩ := exists_eq_put_of_write h
  have hkeeps := keepsDirectories_put hfree (.file (encode text))
  refine readText_of_lookup (lookup_eq_ok_iff.mpr
    ⟨.inside names, resolve_of_keepsDirectories hkeeps hresolve, ?_⟩)
  rw [entryAt?_put (ne_nil_of_entryAt?_ne hfree), if_pos rfl]

theorem readText_of_write_elsewhere {path' : String} (h : t.write path' bytes = .ok t')
    (hread : t.readText path = .ok text) (hother : t.resolve path ≠ t.resolve path') :
    t'.readText path = .ok text := by
  obtain ⟨names, hresolve', hfree, rfl⟩ := exists_eq_put_of_write h
  refine readText_of_entryAt?_eq (keepsDirectories_put hfree _) hread fun place hresolve => ?_
  rw [entryAt?_put (ne_nil_of_entryAt?_ne hfree), if_neg]
  rintro rfl
  exact hother (hresolve.trans hresolve'.symm)

/-- What was written first is there still, though directories were made and
another text was written, unless both paths lead to one place. -/
theorem readText_of_write_of_write {path' text' : String} {above : FileTree}
    (h : t.write path (encode text) = .ok t₁) (hgains : t₁.GainsDirectories above)
    (h' : above.write path' (encode text') = .ok t₂) :
    t₂.readText path = .ok text ∨ t₂.resolve path = t₂.resolve path' := by
  have hread := readText_of_gainsDirectories hgains (readText_of_write h)
  obtain ⟨names, hresolve', hfree, rfl⟩ := exists_eq_put_of_write h'
  by_cases hplace : above.resolve path = above.resolve path'
  · have hkeeps := keepsDirectories_put hfree (.file (encode text'))
    right
    rw [resolve_of_keepsDirectories hkeeps hresolve',
      resolve_of_keepsDirectories hkeeps (hplace.trans hresolve')]
  · exact .inl (readText_of_write_elsewhere h' hread hplace)

/-! ## Planting -/

theorem entryAt?_foldl_directory {dirs : List (List String)} (h : [] ∉ dirs) :
    ∀ (t : FileTree) (place : Place),
      (dirs.foldl (fun t dir => t.put dir .directory) t).entryAt? place =
        if place ∈ dirs.map .inside then some .directory else t.entryAt? place := by
  induction dirs with
  | nil => simp
  | cons dir dirs ih =>
      intro t place
      rw [List.mem_cons, not_or] at h
      rw [List.foldl_cons, ih h.2, entryAt?_put (Ne.symm h.1), List.map_cons]
      by_cases hdirs : place ∈ dirs.map .inside
      · rw [if_pos hdirs, if_pos (List.mem_cons_of_mem _ hdirs)]
      · by_cases hdir : place = .inside dir
        · rw [if_neg hdirs, if_pos hdir, if_pos (hdir ▸ List.mem_cons_self)]
        · rw [if_neg hdirs, if_neg hdir, if_neg (List.not_mem_cons_of_ne_of_not_mem hdir hdirs)]

theorem mem_above_iff {dir : List String} :
    dir ∈ ((List.range names.length).map fun n => names.take n).filter (· ≠ []) ↔
      dir ≠ [] ∧ dir ≠ names ∧ dir <+: names := by
  rw [List.mem_filter, decide_eq_true_eq, and_comm]
  refine and_congr_right fun _ => ?_
  constructor
  · intro h
    obtain ⟨n, hn, rfl⟩ := List.mem_map.mp h
    refine ⟨fun heq => ?_, List.take_prefix n names⟩
    have hlength := congrArg List.length heq
    rw [List.length_take] at hlength
    have := List.mem_range.mp hn
    omega
  · rintro ⟨hne, habove⟩
    have hlength : dir.length < names.length :=
      Nat.lt_of_le_of_ne habove.length_le fun heq => hne (habove.eq_of_length heq)
    exact List.mem_map.mpr
      ⟨_, List.mem_range.mpr hlength, (List.prefix_iff_eq_take.mp habove).symm⟩

/-- What leads to a planted entry are directories, and nothing else changes. -/
theorem entryAt?_plant (h : names ≠ []) (t : FileTree) (e : Entry) (place : Place) :
    (t.plant names e).entryAt? place =
      if place = .inside names then some e
      else if place ∈ names.inits.map .inside then some .directory
      else t.entryAt? place := by
  rw [plant, entryAt?_put h]
  split
  · rfl
  · rename_i hplace
    rw [entryAt?_foldl_directory fun hnil => (mem_above_iff.mp hnil).1 rfl]
    by_cases hinits : place ∈ names.inits.map .inside
    · rw [if_pos hinits]
      obtain ⟨dir, hdir, rfl⟩ := List.mem_map.mp hinits
      -- The working directory is not put, but is a directory in any tree.
      by_cases hnil : dir = []
      · rw [hnil]
        split <;> rfl
      · have hne : dir ≠ names := fun heq => hplace (congrArg Place.inside heq)
        exact if_pos (List.mem_map_of_mem
          (mem_above_iff.mpr ⟨hnil, hne, (List.mem_inits _ _).mp hdir⟩))
    · rw [if_neg hinits, if_neg]
      intro habove
      obtain ⟨dir, hdir, rfl⟩ := List.mem_map.mp habove
      exact hinits (List.mem_map_of_mem ((List.mem_inits _ _).mpr (mem_above_iff.mp hdir).2.2))

/-- A part of a path that can name an entry. -/
structure IsPlain (part : String) : Prop where
  speaks : Path.isIdle part = false
  inside : part ≠ ".."
  short : part.utf8ByteSize ≤ maxNameBytes

theorem walk_of_isPlain (hplain : ∀ part ∈ names, IsPlain part) {above : List String}
    (h : ∀ n < names.length, t.entryAt? (.inside (above ++ names.take n)) = some .directory) :
    t.walk (.inside above) names = .ok (.inside (above ++ names)) := by
  induction names generalizing above with
  | nil => rw [List.append_nil, walk]
  | cons part rest ih =>
      obtain ⟨⟨hspeaks, hinside, hshort⟩, hrest⟩ := List.forall_mem_cons.mp hplain
      have hstart : t.entryAt? (.inside above) = some .directory := by
        simpa using h 0 (Nat.succ_pos _)
      have hstep : t.step (.inside above) part = .ok (.inside (above ++ [part])) := by
        simp [step, hstart, hspeaks, hinside, Nat.not_lt.mpr hshort]
      have hwalk : t.walk (.inside (above ++ [part])) rest =
          .ok (.inside (above ++ [part] ++ rest)) :=
        ih hrest fun n hn => by simpa using h (n + 1) (Nat.succ_lt_succ hn)
      rw [List.append_assoc, List.singleton_append] at hwalk
      exact bind_eq_ok_iff.mpr ⟨_, hstep, hwalk⟩

theorem startOf_of_isPlain (h : ∀ part ∈ Path.parts path, IsPlain part) :
    startOf path = .inside [] := by
  refine if_neg fun hslash => ?_
  rw [← String.startsWith_toSlice, String.Slice.startsWith_string_iff] at hslash
  obtain ⟨rest, hpath⟩ := hslash
  rw [String.copy_toSlice] at hpath
  -- What stands before a slash at the start is an empty part.
  have hempty : "" ∈ Path.parts path := by
    rw [Path.parts, ← hpath]
    exact List.mem_cons_self
  exact absurd (h "" hempty).speaks (by decide)

/-- A file that was planted along the parts of a path is read under that path. -/
theorem readText_plant (t : FileTree) (hpath : pathFault? path = none)
    (hplain : ∀ part ∈ Path.parts path, IsPlain part) (text : String) :
    (t.plant (Path.parts path) (.file (encode text))).readText path = .ok text := by
  have hne := Path.parts_ne_nil path
  have hcheck : checkPath path = .ok () := by
    rw [checkPath, hpath]
    rfl
  refine readText_of_lookup (lookup_eq_ok_iff.mpr ⟨.inside (Path.parts path), ?_, ?_⟩)
  · refine bind_eq_ok_iff.mpr ⟨(), hcheck, ?_⟩
    rw [startOf_of_isPlain hplain]
    refine walk_of_isPlain hplain fun n hn => ?_
    have htake : (Path.parts path).take n <+: Path.parts path := List.take_prefix n _
    have habove := (List.mem_inits _ _).mpr htake
    rw [List.nil_append, entryAt?_plant hne, if_neg, if_pos (List.mem_map_of_mem habove)]
    intro heq
    have hlength := congrArg List.length (Place.inside.inj heq)
    rw [List.length_take] at hlength
    omega
  · rw [entryAt?_plant hne, if_pos rfl]

/-- A directory takes the place of a file that stands in the way. -/
example :
    ((empty.plant ["infra"] (.file [])).plant ["infra", "main.json"] (.file [])).entries =
      [(["infra"], .directory), (["infra", "main.json"], .file [])] := by
  decide

end TemplateGate.FileTree
