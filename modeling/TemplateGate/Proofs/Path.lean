/-
# `Proofs.Path` — the file that a path leads to

Between the slashes of a path stand its parts, and a path is its parts put
together again (`parts_eq_iff`).  So what a function makes of the parts can
be said of the path as a text.  The name of the file is the last part that
says anything, `LeadsTo`, and the extension is what follows the last point
of that name, unless nothing stands before the point, `HasExtension`.
-/
import TemplateGate.Path

namespace TemplateGate.Path

variable {path name extension : String}

/-- A path leads to a file of a name: the name is a part of it, and behind
it stand only parts that say nothing. -/
def LeadsTo (path name : String) : Prop :=
  ∃ before after : List String, path = String.intercalate "/" (before ++ name :: after) ∧
    (∀ part ∈ before ++ name :: after, '/' ∉ part.toList) ∧
    (∀ part ∈ after, part = "" ∨ part = ".") ∧ name ≠ "" ∧ name ≠ "." ∧ name ≠ ".."

/-- A name has an extension: it ends with a point and the extension, and does
not begin with that point. -/
def NameHasExtension (name extension : String) : Prop :=
  ∃ stem, stem ≠ "" ∧ name = stem ++ "." ++ extension ∧ '.' ∉ extension.toList

/-- A path leads to a file whose name has an extension. -/
def HasExtension (path extension : String) : Prop :=
  ∃ name, LeadsTo path name ∧ NameHasExtension name extension

/-! ## Parts -/

theorem go_eq_modifyHead (cs : List Char) : ∀ part : List Char,
    parts.go cs part = (cs.splitOn '/').modifyHead (part.reverse ++ ·) := by
  induction cs with
  | nil =>
      intro part
      rw [List.splitOn_nil, List.modifyHead_cons, List.append_nil, parts.go]
  | cons c cs ih =>
      intro part
      rw [List.splitOn_cons_eq_if_modifyHead]
      by_cases hc : c = '/'
      · subst hc
        rw [parts.go, ih, if_pos (beq_self_eq_true _), List.modifyHead_cons, List.append_nil]
        cases cs.splitOn '/' <;> rfl
      · rw [parts.go.eq_3 _ _ _ hc, ih, if_neg (by simpa using hc), List.modifyHead_modifyHead]
        simp [Function.comp_def]

theorem parts_eq_splitOn (path : String) :
    parts path = (path.toList.splitOn '/').map String.ofList := by
  rw [parts, go_eq_modifyHead]
  cases path.toList.splitOn '/' <;> rfl

theorem parts_ne_nil (path : String) : parts path ≠ [] := by
  rw [parts_eq_splitOn]
  exact fun h => List.splitOn_ne_nil _ _ (List.map_eq_nil_iff.mp h)

theorem slash_not_mem_of_mem_splitOn {cs : List Char} : ∀ part ∈ cs.splitOn '/', '/' ∉ part := by
  induction cs with
  | nil => simp
  | cons c cs ih =>
      rw [List.splitOn_cons_eq_if_modifyHead]
      split
      · simpa using ih
      · rename_i hc
        cases h : cs.splitOn '/' with
        | nil => exact absurd h (List.splitOn_ne_nil _ _)
        | cons first rest =>
            rw [h] at ih
            rw [List.modifyHead_cons]
            grind

/-- The parts of a path are texts without slashes that make up the path. -/
theorem parts_eq_iff {ps : List String} : parts path = ps ↔
    ps ≠ [] ∧ path = String.intercalate "/" ps ∧ ∀ part ∈ ps, '/' ∉ part.toList := by
  have hlists : ∀ lists : List (List Char),
      (lists.map String.ofList).map String.toList = lists := by
    simp [Function.comp_def]
  constructor
  · rintro rfl
    refine ⟨parts_ne_nil path, String.toList_inj.mp ?_, ?_⟩
    · rw [parts_eq_splitOn, String.toList_intercalate, hlists]
      exact (List.intercalate_splitOn '/').symm
    · rw [parts_eq_splitOn]
      intro part hpart
      obtain ⟨cs, hcs, rfl⟩ := List.mem_map.mp hpart
      rw [String.toList_ofList]
      exact slash_not_mem_of_mem_splitOn cs hcs
  · rintro ⟨hne, rfl, hslash⟩
    have hsplit : (List.intercalate ['/'] (ps.map String.toList)).splitOn '/' =
        ps.map String.toList := by
      refine List.splitOn_intercalate '/' ?_ (by simpa using hne)
      simpa using hslash
    rw [parts_eq_splitOn, String.toList_intercalate]
    show (List.splitOn '/' (List.intercalate ['/'] (ps.map String.toList))).map String.ofList = ps
    rw [hsplit, List.map_map]
    simp [Function.comp_def]

/-! ## Names -/

theorem isIdle_iff {part : String} : isIdle part = true ↔ part = "" ∨ part = "." := by
  simp [isIdle]

theorem fileName?_eq_some_iff : fileName? path = some name ↔ LeadsTo path name := by
  have hsplit : fileName? path = some name ↔ ∃ before after,
      parts path = before ++ name :: after ∧ (∀ part ∈ after, part = "" ∨ part = ".") ∧
        ¬ (name = "" ∨ name = ".") ∧ name ≠ ".." := by
    rw [fileName?, Option.filter_eq_some_iff, List.getLast?_filter, List.find?_eq_some_iff_append]
    simp only [Bool.not_eq_true', Bool.not_not, isIdle_iff, ← Bool.not_eq_true, bne_iff_ne]
    constructor
    · rintro ⟨⟨hname, after, before, hparts, hafter⟩, hup⟩
      refine ⟨before.reverse, after.reverse, ?_, ?_, hname, hup⟩
      · rw [← List.reverse_reverse (parts path), hparts]
        simp
      · simpa using hafter
    · rintro ⟨before, after, hparts, hafter, hname, hup⟩
      refine ⟨⟨hname, after.reverse, before.reverse, ?_, ?_⟩, hup⟩
      · rw [hparts]
        simp
      · simpa using hafter
  rw [hsplit, LeadsTo]
  refine exists_congr fun before => exists_congr fun after => ?_
  rw [parts_eq_iff, not_or]
  have hne : before ++ name :: after ≠ [] := by simp
  simp only [ne_eq, hne, not_false_eq_true, true_and, and_assoc]

theorem extensionOf?_eq_some_iff :
    extensionOf? name = some extension ↔ NameHasExtension name extension := by
  rw [extensionOf?]
  constructor
  · intro h
    split at h
    · rename_i c stem hstem
      have hpoint : '.' ∉ name.toList.reverse.takeWhile (· != '.') := by
        intro hmem
        simpa using List.all_eq_true.mp List.all_takeWhile _ hmem
      have hname := List.takeWhile_append_dropWhile (p := (· != '.')) (l := name.toList.reverse)
      rw [hstem] at hname
      generalize name.toList.reverse.takeWhile (· != '.') = backwards at h hpoint hname
      cases h
      refine ⟨String.ofList (c :: stem).reverse, by simp, String.toList_inj.mp ?_,
        by simpa using hpoint⟩
      rw [← List.reverse_reverse name.toList, ← hname]
      simp
    · cases h
  · rintro ⟨stem, hstem, rfl, hpoint⟩
    have hbackwards : (stem ++ "." ++ extension).toList.reverse =
        extension.toList.reverse ++ '.' :: stem.toList.reverse := by
      simp
    have hall : ∀ c ∈ extension.toList.reverse, (c != '.') = true := by
      intro c hc
      rw [bne_iff_ne]
      rintro rfl
      exact hpoint (List.mem_reverse.mp hc)
    have hne : stem.toList.reverse ≠ [] := by simpa using hstem
    rw [hbackwards, List.dropWhile_append_of_pos hall, List.takeWhile_append_of_pos hall]
    cases hstem : stem.toList.reverse with
    | nil => exact absurd hstem hne
    | cons c cs =>
        simp

theorem extension?_eq_some_iff :
    extension? path = some extension ↔ HasExtension path extension := by
  simp only [extension?, Option.bind_eq_some_iff, fileName?_eq_some_iff, extensionOf?_eq_some_iff,
    HasExtension]

/-- The point at the start of a name does not count, and case does. -/
example : ["infra/.json", "main.JSON", "main.json/."].map extension? =
    [none, some "JSON", some "json"] := by
  decide +kernel

end TemplateGate.Path
