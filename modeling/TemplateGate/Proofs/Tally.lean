/-
# `Proofs.Tally` — findings that are counted twice

An evaluation counts its findings in two places.  The summary has one number
for all of them, which ends at the greatest word.  The tally has a number
for each check and adds one to it at every finding, in words, so it starts
again at zero when 2³² findings of a check have been counted.

How many findings of a check there are is a matter of the list, `Check.among`,
and the tally is that number up to multiples of 2³² (`toNat_get_ofFindings`):
one finding adds one to the number of its check and nothing to the others,
and the rest is induction along the list.  As long as a check has fewer than
2³² findings the two counts therefore agree.  `tally_starts_again` is an
evaluation in which they do not.
-/
import TemplateGate.Proofs.Isolation

namespace TemplateGate

/-! ## The tally of a list -/

theorem Check.length_among_cons (c : Check) (f : Finding) (fs : List Finding) :
    (c.among (f :: fs)).length =
      if f.checkId = c.id then (c.among fs).length + 1 else (c.among fs).length := by
  rw [among, List.filter_cons]
  simp only [decide_eq_true_eq]
  split <;> rfl

namespace Tally

theorem get_count (t : Tally) (c d : Check) :
    (t.count c).get d = if c = d then t.get d + 1 else t.get d := by
  cases c <;> cases d <;> rfl

theorem get_add (t : Tally) (f : Finding) (c : Check) :
    (t.add f).get c = if f.checkId = c.id then t.get c + 1 else t.get c := by
  rw [add]
  split
  · rename_i d hd
    rw [Check.ofId?_eq_some_iff] at hd
    simp only [get_count, hd, Check.id_inj]
  · rename_i hunknown
    rw [if_neg]
    intro hid
    rw [hid, Check.ofId?_id] at hunknown
    cases hunknown

theorem toNat_get_foldl_add (fs : List Finding) (c : Check) : ∀ t : Tally,
    ((fs.foldl add t).get c).toNat = ((t.get c).toNat + (c.among fs).length) % 2 ^ 32 := by
  induction fs with
  | nil => exact fun t => (Nat.mod_eq_of_lt (t.get c).toNat_lt).symm
  | cons f fs ih =>
      intro t
      rw [List.foldl_cons, ih, get_add, Check.length_among_cons]
      by_cases hid : f.checkId = c.id
      · rw [if_pos hid, if_pos hid, UInt32.toNat_add, show (1 : UInt32).toNat = 1 from rfl]
        omega
      · rw [if_neg hid, if_neg hid]

/-- The number of a check is that of its findings, up to multiples of 2³². -/
theorem toNat_get_ofFindings (fs : List Finding) (c : Check) :
    ((ofFindings fs).get c).toNat = (c.among fs).length % 2 ^ 32 := by
  have hzero : (zero.get c).toNat = 0 := by cases c <;> rfl
  rw [ofFindings, toNat_get_foldl_add, hzero, Nat.zero_add]

/-- What the tally of some findings says of them. -/
structure Counts (t : Tally) (fs : List Finding) : Prop where
  /-- The number of a check is that of its findings, but what a word cannot hold is lost. -/
  wraps : ∀ c, (t.get c).toNat = (c.among fs).length % 2 ^ 32
  /-- It is the saturated number as long as there are fewer than 2³² findings
  of the check, and beyond only by coincidence. -/
  saturates_iff : ∀ c, (t.get c).toNat = min (c.among fs).length (2 ^ 32 - 1) ↔
    (c.among fs).length < 2 ^ 32 ∨ (c.among fs).length % 2 ^ 32 = 2 ^ 32 - 1

theorem counts_ofFindings (fs : List Finding) : (ofFindings fs).Counts fs where
  wraps := toNat_get_ofFindings fs
  saturates_iff := by
    intro c
    rw [toNat_get_ofFindings]
    omega

end Tally

/-! ## The tally of an evaluation -/

theorem length_among_le (c : Check) (fs : List Finding) : (c.among fs).length ≤ fs.length :=
  List.length_filter_le _ _

theorem length_findings (doc : Document) (a : Dictionary String) (p : Policy) :
    (findings doc a p).length = (Check.naming.among (findings doc a p)).length +
      (Check.security.among (findings doc a p)).length +
      (Check.cost.among (findings doc a p)).length := by
  rw [among_findings, among_findings, among_findings, findings_eq_append, List.length_append,
    List.length_append, Nat.add_assoc]

/-- The two counts of an evaluation fit together. -/
structure Evaluation.Accounts (e : Evaluation) : Prop where
  counted : e.tally.Counts e.findings
  bounded : ∀ c, e.tally.get c ≤ e.summary.findingsTotal
  /-- A check that did not run has found nothing. -/
  idle : ∀ c : Check, c.id ∉ e.summary.checksRun → e.tally.get c = 0
  total : e.findings.length < 2 ^ 32 →
    (e.tally.get .naming).toNat + (e.tally.get .security).toNat + (e.tally.get .cost).toNat =
      e.summary.findingsTotal.toNat

/-- Of every list of findings the tally says how many each check has, up to
multiples of 2³², and in every evaluation it fits the summary. -/
theorem tallies_agree (fs : List Finding) (doc : Document) (abbreviations : Dictionary String)
    (policy : Policy) :
    (Tally.ofFindings fs).Counts fs ∧ (evaluate doc abbreviations policy).Accounts := by
  refine ⟨Tally.counts_ofFindings fs, ?_⟩
  have htotal : (evaluate doc abbreviations policy).summary.findingsTotal.toNat =
      min (findings doc abbreviations policy).length (2 ^ 32 - 1) := toNat_saturate _
  have htally : ∀ c, ((evaluate doc abbreviations policy).tally.get c).toNat =
      (c.among (findings doc abbreviations policy)).length % 2 ^ 32 :=
    Tally.toNat_get_ofFindings _
  refine ⟨Tally.counts_ofFindings _, fun c => ?_, fun c hidle => ?_, fun hsmall => ?_⟩
  · have hle := length_among_le c (findings doc abbreviations policy)
    rw [UInt32.le_iff_toNat_le, htally, htotal]
    omega
  · have hoff : ¬ policy.enables c = true := mt id_mem_checksRun_iff.mpr hidle
    rw [← UInt32.toNat_inj, htally, among_findings, if_neg hoff]
    rfl
  · have hsum := length_findings doc abbreviations policy
    have hlength : (findings doc abbreviations policy).length < 2 ^ 32 := hsmall
    rw [htally, htally, htally, htotal]
    omega

/-- One name, many times. -/
def crowd (n : Nat) : Document := List.replicate n (.named "stg")

theorem length_among_crowd (n : Nat) :
    (Check.naming.among (findings (crowd n) (.ofList [("stg", "storage")]) .unpriced)).length =
      n := by
  have hone : (Check.naming.findingsAt (.ofList [("stg", "storage")]) Policy.unpriced.oversized 0
      (.named "stg")).length = 1 := by
    decide +kernel
  have hon : Policy.unpriced.enables .naming = true := rfl
  rw [among_findings, if_pos hon, ← List.length_map, Check.map_relocate_findings, crowd,
    List.length_flatMap, List.map_replicate, hone, List.sum_replicate_nat, Nat.mul_one]

/-- An evaluation finds 2³² abbreviations and tallies none, while its summary
shows the greatest word. -/
theorem tally_starts_again :
    (Check.naming.among (evaluate (crowd (2 ^ 32)) (.ofList [("stg", "storage")])
        .unpriced).findings).length = 2 ^ 32 ∧
      (evaluate (crowd (2 ^ 32)) (.ofList [("stg", "storage")])
        .unpriced).summary.findingsTotal = 4294967295 ∧
      (Tally.ofFindings (evaluate (crowd (2 ^ 32)) (.ofList [("stg", "storage")])
        .unpriced).findings).get .naming = 0 ∧
      ((Tally.ofFindings (evaluate (crowd (2 ^ 32)) (.ofList [("stg", "storage")])
        .unpriced).findings).get .naming).toNat ≠ min (Check.naming.among
          (evaluate (crowd (2 ^ 32)) (.ofList [("stg", "storage")])
            .unpriced).findings).length (2 ^ 32 - 1) := by
  have hlength := length_among_crowd (2 ^ 32)
  generalize crowd (2 ^ 32) = doc at hlength ⊢
  have htally : (Tally.ofFindings (findings doc (.ofList [("stg", "storage")]) .unpriced)).get
      .naming = 0 := by
    rw [← UInt32.toNat_inj, Tally.toNat_get_ofFindings, hlength]
    rfl
  have htotal : saturate (findings doc (.ofList [("stg", "storage")]) .unpriced).length =
      4294967295 := by
    have hle := length_among_le .naming (findings doc (.ofList [("stg", "storage")]) .unpriced)
    rw [← UInt32.toNat_inj, toNat_saturate, show (4294967295 : UInt32).toNat = 4294967295 from rfl]
    omega
  refine ⟨hlength, htotal, htally, ?_⟩
  show ((Tally.ofFindings (findings doc _ _)).get .naming).toNat ≠
    min (Check.naming.among (findings doc _ _)).length (2 ^ 32 - 1)
  rw [htally, hlength]
  decide

end TemplateGate
