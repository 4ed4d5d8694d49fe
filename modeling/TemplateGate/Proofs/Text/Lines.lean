/-
# `Proofs.Text.Lines` — the lines of a text that is printed line by line

What is printed with a line feed behind it is meant as one line, and is one
only if it holds no line feed itself.  `pieces` cuts a text at its line
feeds, and `lines_printed` says what a reader sees who takes a printed text
apart: each of the texts that were printed, in its pieces.
-/
import TemplateGate.Text.Basic

namespace TemplateGate.Text

/-- What stands between the line feeds of a text. -/
def pieces (s : String) : List String := (s.toList.splitOn '\n').map String.ofList

/-- The lines of a text.  Behind the last line feed there is one only if
something stands there. -/
def lines (s : String) : List String :=
  if (pieces s).getLast? = some "" then (pieces s).dropLast else pieces s

/-- Texts printed one after the other, each with a line feed behind it. -/
def printed (texts : List String) : String := String.join (texts.map (· ++ "\n"))

/-- The piece of a text before its first line feed. -/
def firstPiece (s : String) : String := (pieces s).headD ""

/-- The pieces of a text behind its first line feed. -/
def laterPieces (s : String) : List String := (pieces s).tail

theorem pieces_ne_nil (s : String) : pieces s ≠ [] := by
  intro h
  exact List.splitOn_ne_nil '\n' s.toList (List.map_eq_nil_iff.mp h)

theorem pieces_append_lineFeed (s t : String) :
    pieces (s ++ "\n" ++ t) = pieces s ++ pieces t := by
  have hlist : (s ++ "\n" ++ t).toList = s.toList ++ '\n' :: t.toList := by simp
  rw [pieces, hlist, List.splitOn_append_cons_self, List.map_append]
  rfl

theorem pieces_eq_singleton {s : String} (h : '\n' ∉ s.toList) : pieces s = [s] := by
  rw [pieces, List.splitOn_eq_singleton h, List.map_singleton, String.ofList_toList]

theorem laterPieces_eq_nil_iff {s : String} : laterPieces s = [] ↔ '\n' ∉ s.toList := by
  constructor
  · intro h hmem
    obtain ⟨before, after, heq⟩ := List.append_of_mem hmem
    have hs : s = String.ofList before ++ "\n" ++ String.ofList after := by
      refine String.toList_inj.mp ?_
      simp [heq]
    rw [laterPieces, hs, pieces_append_lineFeed,
      List.tail_append_of_ne_nil (pieces_ne_nil _)] at h
    exact pieces_ne_nil _ (List.append_eq_nil_iff.mp h).2
  · intro h
    rw [laterPieces, pieces_eq_singleton h]
    rfl

/-- What is written before a text stands before its first piece. -/
theorem pieces_append {s : String} (h : '\n' ∉ s.toList) (t : String) :
    pieces (s ++ t) = (s ++ firstPiece t) :: laterPieces t := by
  by_cases ht : '\n' ∈ t.toList
  · obtain ⟨before, after, heq, hbefore⟩ := List.eq_append_cons_of_mem ht
    have hcut : t = String.ofList before ++ "\n" ++ String.ofList after := by
      refine String.toList_inj.mp ?_
      simp [heq]
    have hfirst : pieces (String.ofList before) = [String.ofList before] :=
      pieces_eq_singleton (by simpa using hbefore)
    have hfront : pieces (s ++ String.ofList before) = [s ++ String.ofList before] :=
      pieces_eq_singleton (by simp [h, hbefore])
    have hassoc : s ++ t = s ++ String.ofList before ++ "\n" ++ String.ofList after := by
      rw [hcut]
      simp only [String.append_assoc]
    rw [hassoc, firstPiece, laterPieces, hcut, pieces_append_lineFeed, pieces_append_lineFeed,
      hfirst, hfront]
    rfl
  · have hone : pieces t = [t] := pieces_eq_singleton ht
    rw [firstPiece, laterPieces, hone]
    exact pieces_eq_singleton (by simp [h, ht])

theorem printed_append (texts texts' : List String) :
    printed (texts ++ texts') = printed texts ++ printed texts' := by
  rw [printed, List.map_append, String.join_append]
  rfl

theorem pieces_printed (texts : List String) :
    pieces (printed texts) = texts.flatMap pieces ++ [""] := by
  induction texts with
  | nil => rfl
  | cons s texts ih =>
      have hcons : printed (s :: texts) = s ++ "\n" ++ printed texts := by
        rw [printed, List.map_cons, String.join_cons]
        rfl
      rw [hcons, pieces_append_lineFeed, ih, List.flatMap_cons, List.append_assoc]

theorem lines_printed (texts : List String) : lines (printed texts) = texts.flatMap pieces := by
  rw [lines, pieces_printed, if_pos List.getLast?_concat, List.dropLast_concat]

theorem lineFeed_not_mem_of_mem_splitOn {l : List Char} :
    ∀ {cs : List Char}, l ∈ cs.splitOn '\n' → '\n' ∉ l
  | [], h => by
      rw [List.splitOn_nil, List.mem_singleton] at h
      exact h ▸ List.not_mem_nil
  | c :: cs, h => by
      obtain ⟨first, rest, hcut⟩ := List.exists_cons_of_ne_nil (List.splitOn_ne_nil '\n' cs)
      have ih : ∀ l ∈ first :: rest, '\n' ∉ l := fun l hl =>
        lineFeed_not_mem_of_mem_splitOn (hcut ▸ hl)
      rw [List.splitOn_cons_eq_if_modifyHead, hcut] at h
      by_cases hc : c = '\n'
      · rw [if_pos (beq_iff_eq.mpr hc), List.mem_cons] at h
        rcases h with rfl | h
        · exact List.not_mem_nil
        · exact ih l h
      · rw [if_neg (fun hbeq => hc (beq_iff_eq.mp hbeq)), List.modifyHead_cons, List.mem_cons] at h
        rcases h with rfl | h
        · intro hmem
          rcases List.mem_cons.mp hmem with hc' | hmem
          · exact hc hc'.symm
          · exact ih first List.mem_cons_self hmem
        · exact ih l (List.mem_cons_of_mem first h)

/-- Texts are read as they were printed exactly if they hold no line feed. -/
theorem flatMap_pieces_eq_self_iff {texts : List String} :
    texts.flatMap pieces = texts ↔ ∀ s ∈ texts, '\n' ∉ s.toList := by
  constructor
  · intro h s hs
    rw [← h, List.mem_flatMap] at hs
    obtain ⟨t, -, hs⟩ := hs
    obtain ⟨l, hl, rfl⟩ := List.mem_map.mp hs
    rw [String.toList_ofList]
    exact lineFeed_not_mem_of_mem_splitOn hl
  · intro h
    induction texts with
    | nil => rfl
    | cons s texts ih =>
        rw [List.flatMap_cons, pieces_eq_singleton (h s List.mem_cons_self),
          ih fun t ht => h t (List.mem_cons_of_mem s ht)]
        rfl

end TemplateGate.Text
