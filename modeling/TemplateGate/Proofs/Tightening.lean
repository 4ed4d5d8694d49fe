/-
# `Proofs.Tightening` — a stricter policy finds no less

A policy is tightened by switching checks on and by adding entries to the
tables in which checks look things up.  New findings then stand between old
ones: new abbreviations among those of one resource, and the blocks of new
checks around those of the checks that were on.  The old findings keep
their order all the same, so they are a sublist of the new ones
(`findings_sublist`).

A table only counts where its check was on.  That is why the findings under
`security-only` are among those under `strict` for any tables whatever.
-/
import Mathlib.Data.List.Flatten
import TemplateGate.Proofs.Config.Effective
import TemplateGate.Proofs.Gate
import TemplateGate.Proofs.Sites

namespace TemplateGate

variable {p q : Policy} {a b oversized oversized' : Dictionary String}

/-- A policy `p` with abbreviations `a` is tightened to `q` with `b`: no check
is switched off, and a check that was on keeps all entries of its table. -/
structure Policy.TightenedTo (p : Policy) (a : Dictionary String) (q : Policy)
    (b : Dictionary String) : Prop where
  checks : ∀ c : Check, p.enables c = true → q.enables c = true
  abbreviations : p.enables .naming = true → ∀ e ∈ a.entries, e ∈ b.entries
  oversized : p.enables .cost = true → ∀ e ∈ p.oversized.entries, e ∈ q.oversized.entries

/-! ## More entries in a table -/

theorem Naming.findingsAt_sublist (h : ∀ e ∈ a.entries, e ∈ b.entries) (index : Nat)
    (r : Resource) : (findingsAt a index r).Sublist (findingsAt b index r) :=
  ((Dictionary.sublist_entries h).filter _).map _

theorem Cost.findingAt?_eq_some_of_subset (h : ∀ e ∈ oversized.entries, e ∈ oversized'.entries)
    {index : Nat} {r : Resource} {f : Finding} (hf : findingAt? oversized index r = some f) :
    findingAt? oversized' index r = some f := by
  obtain ⟨sku, recommendation, hsku, hmem, rfl⟩ := findingAt?_eq_some_iff.mp hf
  exact findingAt?_eq_some_iff.mpr ⟨sku, recommendation, hsku, h _ hmem, rfl⟩

theorem Check.findingsAt_sublist {c : Check}
    (habbreviations : c = .naming → ∀ e ∈ a.entries, e ∈ b.entries)
    (hoversized : c = .cost → ∀ e ∈ oversized.entries, e ∈ oversized'.entries) (index : Nat)
    (r : Resource) :
    (c.findingsAt a oversized index r).Sublist (c.findingsAt b oversized' index r) := by
  cases c with
  | naming => exact Naming.findingsAt_sublist (habbreviations rfl) index r
  | security => exact List.Sublist.refl _
  | cost =>
      show (Cost.findingAt? oversized index r).toList.Sublist
        (Cost.findingAt? oversized' index r).toList
      cases hf : Cost.findingAt? oversized index r with
      | none => exact List.nil_sublist _
      | some f => rw [Cost.findingAt?_eq_some_of_subset (hoversized rfl) hf]

/-! ## Evaluations -/

/-- What was found before a policy was tightened is found after it, in the same order. -/
theorem findings_sublist (h : p.TightenedTo a q b) (doc : Document) :
    (findings doc a p).Sublist (findings doc b q) := by
  rw [findings, findings, inOrder, inOrder]
  refine List.Sublist.flatMap_right Check.all fun c _ => ?_
  by_cases hon : p.enables c = true
  · rw [if_pos hon, if_pos (h.checks c hon), Check.findings_eq_flatMap, Check.findings_eq_flatMap]
    refine List.Sublist.flatMap_right doc.zipIdx fun e _ => ?_
    refine Check.findingsAt_sublist ?_ ?_ e.2 e.1
    · rintro rfl
      exact h.abbreviations hon
    · rintro rfl
      exact h.oversized hon
  · rw [if_neg hon]
    exact List.nil_sublist _

theorem verdict_evaluate_eq_fail_iff (doc : Document) (a : Dictionary String) (p : Policy) :
    (evaluate doc a p).verdict = .fail ↔ findings doc a p ≠ [] := by
  rw [ne_eq, ← verdict_evaluate_eq_pass_iff]
  cases (evaluate doc a p).verdict <;> simp

theorem verdict_eq_fail_of_tightened (h : p.TightenedTo a q b) {doc : Document}
    (hfail : (evaluate doc a p).verdict = .fail) : (evaluate doc b q).verdict = .fail := by
  rw [verdict_evaluate_eq_fail_iff] at hfail ⊢
  intro hnil
  have hsublist := findings_sublist h doc
  rw [hnil] at hsublist
  exact hfail (List.sublist_nil.mp hsublist)

/-! ## Profiles -/

/-- The profile `strict` tightens `security-only`, of a configuration that
switches no check by itself. -/
theorem Config.tightenedTo_of_profileName {c c' : Config} {o o' : Option String}
    (hunset : ∀ check, c.switch? check = none) (hchecks : c'.checks = c.checks)
    (hsecurity : c.profileName o = "security-only") (hstrict : c'.profileName o' = "strict")
    (hp : c.resolve o = .ok p) (hq : c'.resolve o' = .ok q) (a : Dictionary String) :
    p.TightenedTo a q a := by
  have honly : ∀ check, p.enables check = true → check = .security := by
    intro check hon
    rcases (enables_iff_isOn hp check).mp hon with hset | ⟨-, hname | hcheck⟩
    · rw [hunset] at hset
      cases hset
    · rw [hsecurity] at hname
      exact absurd hname (by decide)
    · exact hcheck
  refine ⟨fun check _ => ?_, fun hon => ?_, fun hon => ?_⟩
  · have hunset' : c'.switch? check = none := by rw [switch?, hchecks, ← hunset check, switch?]
    exact (enables_iff_isOn hq check).mpr (.inr ⟨hunset', .inl hstrict⟩)
  · cases honly _ hon
  · cases honly _ hon

/-- Only the name of the profile can keep a configuration from resolving that
has resolved under another. -/
theorem Config.exists_resolve_eq_ok {c c' : Config} {o o' : Option String}
    (hchecks : c'.checks = c.checks) (hskus : c'.cost.oversized = c.cost.oversized)
    (hstrict : c'.profileName o' = "strict") (hp : c.resolve o = .ok p) :
    ∃ q, c'.resolve o' = .ok q := by
  obtain ⟨-, -, hunknown, hblank, -⟩ := resolve_eq_ok_iff.mp hp
  refine ⟨_, resolve_eq_ok_iff.mpr ⟨.strict, ?_, ?_, ?_, rfl⟩⟩
  · rw [hstrict]
    exact Profile.ofName?_name .strict
  · rw [unknownCheck?, hchecks]
    exact hunknown
  · rw [blankSku?, hskus]
    exact hblank

/-- Tightening a policy hides nothing: the findings before are a sublist of
those after, and a run that failed still does.  In particular the findings
under `security-only` are a sublist of those under `strict`, of two
configurations that switch no check by themselves and list the same SKUs. -/
theorem tightening_hides_nothing :
    (∀ (doc : Document) (a b : Dictionary String) (p q : Policy), p.TightenedTo a q b →
      (evaluate doc a p).findings.Sublist (evaluate doc b q).findings ∧
        ((evaluate doc a p).verdict = .fail → (evaluate doc b q).verdict = .fail)) ∧
    (∀ (c c' : Config) (o o' : Option String) (p : Policy),
      (∀ check, c.switch? check = none) → c'.checks = c.checks →
        c'.cost.oversized = c.cost.oversized → c.profileName o = "security-only" →
          c'.profileName o' = "strict" → c.resolve o = .ok p →
            ∃ q, c'.resolve o' = .ok q ∧ ∀ (doc : Document) (a : Dictionary String),
              (evaluate doc a p).findings.Sublist (evaluate doc a q).findings) := by
  refine ⟨fun doc a b p q h => ⟨findings_sublist h doc, verdict_eq_fail_of_tightened h⟩, ?_⟩
  intro c c' o o' p hunset hchecks hskus hsecurity hstrict hp
  obtain ⟨q, hq⟩ := Config.exists_resolve_eq_ok hchecks hskus hstrict hp
  refine ⟨q, hq, fun doc a => findings_sublist ?_ doc⟩
  exact Config.tightenedTo_of_profileName hunset hchecks hsecurity hstrict hp hq a

/-- Abbreviations on both sides of an old one, and a check that is switched on. -/
theorem tightened_around_storage :
    (⟨"strict", ⟨true, true, false⟩, .empty⟩ : Policy).TightenedTo (.ofList [("stg", "storage")])
        ⟨"strict", ⟨true, true, true⟩, defaultOversized⟩
        (.ofList [("vm", "machine"), ("stg", "storage"), ("kv", "keyvault")]) ∧
      (evaluate [⟨"kv-stg-vm", "", [], some [("name", .string "P1V2")]⟩]
        (.ofList [("stg", "storage")]) ⟨"strict", ⟨true, true, false⟩, .empty⟩).findings.Sublist
        (evaluate [⟨"kv-stg-vm", "", [], some [("name", .string "P1V2")]⟩]
          (.ofList [("vm", "machine"), ("stg", "storage"), ("kv", "keyvault")])
          ⟨"strict", ⟨true, true, true⟩, defaultOversized⟩).findings := by
  have htightened : (⟨"strict", ⟨true, true, false⟩, .empty⟩ : Policy).TightenedTo
      (.ofList [("stg", "storage")]) ⟨"strict", ⟨true, true, true⟩, defaultOversized⟩
      (.ofList [("vm", "machine"), ("stg", "storage"), ("kv", "keyvault")]) := by
    refine ⟨fun c _ => ?_, fun _ => ?_, fun hon => ?_⟩
    · cases c <;> rfl
    · decide
    · cases hon
  exact ⟨htightened, (tightening_hides_nothing.1 _ _ _ _ _ htightened).1⟩

end TemplateGate
