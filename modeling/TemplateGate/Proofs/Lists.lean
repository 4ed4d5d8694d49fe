/-
# `Proofs.Lists` — lists that are made one from another

Findings, sites and values are made item by item from lists, by `flatMap`
along positions or by `mapM`.  The lemmas here carry a relation between
items to the lists, and a statement on the lists back to the items.  They
know nothing of the gate.
-/
import Mathlib.Data.List.Forall2

namespace TemplateGate

theorem exists_mem_of_forall₂ {α β : Type} {R : α → β → Prop} {as : List α} {bs : List β}
    (h : List.Forall₂ R as bs) : ∀ b ∈ bs, ∃ a ∈ as, R a b := by
  induction h with
  | nil => exact fun b hb => by cases hb
  | cons hab _ ih =>
      intro b hb
      rcases List.mem_cons.mp hb with rfl | hb
      · exact ⟨_, List.mem_cons_self, hab⟩
      · obtain ⟨a, ha, hab⟩ := ih b hb
        exact ⟨a, List.mem_cons_of_mem _ ha, hab⟩

/-- A list has no repetitions if what its items are related to has none and is
told by the items. -/
theorem nodup_of_forall₂ {α β : Type} {R : α → β → Prop} {as : List α} {bs : List β}
    (h : List.Forall₂ R as bs) (htells : ∀ {a a' b}, R a b → R a' b → a = a') :
    as.Nodup → bs.Nodup := by
  induction h with
  | nil => exact fun _ => .nil
  | cons hab hrest ih =>
      intro hnodup
      obtain ⟨hnew, hnodup⟩ := List.nodup_cons.mp hnodup
      refine List.nodup_cons.mpr ⟨fun hb => ?_, ih hnodup⟩
      obtain ⟨a', ha', ha'b⟩ := exists_mem_of_forall₂ hrest _ hb
      exact hnew (htells hab ha'b ▸ ha')

theorem forall₂_flatMap {α β γ : Type} {R : β → γ → Prop} {f : α → List β} {g : α → List γ}
    {l : List α} (h : ∀ a ∈ l, List.Forall₂ R (f a) (g a)) :
    List.Forall₂ R (l.flatMap f) (l.flatMap g) := by
  induction l with
  | nil => exact .nil
  | cons a l ih =>
      rw [List.flatMap_cons, List.flatMap_cons]
      exact List.rel_append (h a List.mem_cons_self)
        (ih fun b hb => h b (List.mem_cons_of_mem a hb))

theorem forall₂_of_mapM {α β : Type} {f : α → Option β} {R : α → β → Prop} {as : List α} :
    ∀ {bs : List β}, as.mapM f = some bs → (∀ a ∈ as, ∀ b, f a = some b → R a b) →
      List.Forall₂ R as bs := by
  induction as with
  | nil =>
      intro bs h _
      cases h
      exact .nil
  | cons a as ih =>
      intro bs h hR
      rw [List.mapM_cons] at h
      obtain ⟨b, hb, h⟩ := Option.bind_eq_some_iff.mp h
      obtain ⟨bs', hbs, h⟩ := Option.bind_eq_some_iff.mp h
      cases h
      exact .cons (hR a List.mem_cons_self b hb)
        (ih hbs fun a' ha' => hR a' (List.mem_cons_of_mem a ha'))

theorem pairwise_zipIdx {α : Type} (l : List α) :
    l.zipIdx.Pairwise fun a b => a.2 < b.2 := by
  rw [← List.pairwise_map (f := Prod.snd) (R := (· < ·)), List.zipIdx_map_snd]
  exact List.pairwise_lt_range'

theorem exists_eq_append_cons_of_getElem? {α : Type} {l : List α} {i : Nat} {x : α}
    (h : l[i]? = some x) : ∃ before after, l = before ++ x :: after ∧ before.length = i := by
  obtain ⟨hlt, rfl⟩ := List.getElem?_eq_some_iff.mp h
  refine ⟨l.take i, l.drop (i + 1), ?_, List.length_take_of_le (Nat.le_of_lt hlt)⟩
  rw [← List.drop_eq_getElem_cons hlt, List.take_append_drop]

/-- What is made along a list and carries the position it was made at can be
sorted out again. -/
theorem filter_flatMap_zipIdx {α β : Type} {f : α × Nat → List β} {p : β → Bool} {l : List α}
    {i : Nat} {a : α} (h : ∀ e ∈ l.zipIdx, ∀ b ∈ f e, p b = true ↔ e.2 = i)
    (ha : l[i]? = some a) : (l.zipIdx.flatMap f).filter p = f (a, i) := by
  obtain ⟨before, after, rfl, hlength⟩ := exists_eq_append_cons_of_getElem? ha
  have hzip : (before ++ a :: after).zipIdx =
      before.zipIdx ++ (a, i) :: after.zipIdx (i + 1) := by
    rw [List.zipIdx_append, List.zipIdx_cons, Nat.zero_add, hlength]
  have hnone : ∀ es : List (α × Nat), (∀ e ∈ es, e ∈ (before ++ a :: after).zipIdx ∧ e.2 ≠ i) →
      (es.flatMap f).filter p = [] := by
    intro es hes
    refine List.filter_eq_nil_iff.mpr fun b hb hp => ?_
    obtain ⟨e, he, hb⟩ := List.mem_flatMap.mp hb
    exact (hes e he).2 ((h e (hes e he).1 b hb).mp hp)
  rw [hzip] at h hnone ⊢
  have hself : (f (a, i)).filter p = f (a, i) := by
    refine List.filter_eq_self.mpr fun b hb => ?_
    exact (h (a, i) (List.mem_append_right _ List.mem_cons_self) b hb).mpr rfl
  rw [List.flatMap_append, List.flatMap_cons, List.filter_append, List.filter_append, hself,
    hnone before.zipIdx ?_, hnone (after.zipIdx (i + 1)) ?_, List.nil_append, List.append_nil]
  · intro e he
    have hle := List.le_snd_of_mem_zipIdx he
    exact ⟨List.mem_append_right _ (List.mem_cons_of_mem _ he), by omega⟩
  · intro e he
    have hlt := List.snd_lt_of_mem_zipIdx he
    exact ⟨List.mem_append_left _ he, by omega⟩

theorem flatMap_zipIdx_eq_nil_iff {α β : Type} {f : α × Nat → List β} {P : α → Prop}
    {l : List α} (h : ∀ a i, f (a, i) = [] ↔ P a) :
    l.zipIdx.flatMap f = [] ↔ ∀ a ∈ l, P a := by
  rw [List.flatMap_eq_nil_iff]
  constructor
  · intro hnil a ha
    obtain ⟨i, hi⟩ := List.mem_iff_getElem?.mp ha
    exact (h a i).mp (hnil (a, i) (List.mk_mem_zipIdx_iff_getElem?.mpr hi))
  · rintro hall ⟨a, i⟩ hai
    have hi := List.mk_mem_zipIdx_iff_getElem?.mp hai
    exact (h a i).mpr (hall a (List.mem_of_getElem? hi))

end TemplateGate
