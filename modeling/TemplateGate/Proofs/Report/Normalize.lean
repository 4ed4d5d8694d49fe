/-
# `Proofs.Report.Normalize` — reports that are read and written again

A reader of reports accepts more than a writer makes: unknown members,
members in any order, `null` or nothing for what is unset, arrays in the
place of records, times with any offset and any fraction.  Whatever it has
accepted it has made a report of, and from then on there is one text, the
one that `Report.toJson` writes.  That text is accepted and denotes the same
report, so that writing it a second time changes nothing.

For that the text must have room for what the report holds.  A report that
was read has it, because payloads are read and written three levels further
in than the report (`Report.depth_le_of_parse`).  Of any other report this
has to be asked, and nothing else: `report_normal_form` says so with an
equivalence.
-/
import TemplateGate.Proofs.Json.Normal
import TemplateGate.Proofs.Report.Codec
import TemplateGate.Proofs.Text.Utf8

namespace TemplateGate

open Json Text

/-! ## What is made of a value that was read -/

theorem Finding.data_of_ofNormal? {v : Value} {f : Finding} (h : ofNormal? v = some f) :
    f.data = (v.get? "data").getD .null := by
  unfold ofNormal? at h
  dsimp only at h
  split at h <;>
    (obtain ⟨_, -, h⟩ := Option.bind_eq_some_iff.mp h
     obtain ⟨_, -, h⟩ := Option.bind_eq_some_iff.mp h
     obtain ⟨_, -, h⟩ := Option.bind_eq_some_iff.mp h
     obtain ⟨_, -, h⟩ := Option.bind_eq_some_iff.mp h
     cases h
     rfl)

theorem Report.findings_of_ofNormal? {v : Value} {r : Report} (h : codec.ofNormal? v = some r) :
    ∃ w vs, v.get? "findings" = some w ∧ w.items? = some vs ∧
      vs.mapM Finding.ofNormal? = some r.findings := by
  replace h : Envelope.ofNormal? Summary.codec v = some r := h
  rw [Envelope.ofNormal?] at h
  obtain ⟨schema, -, h⟩ := Option.bind_eq_some_iff.mp h
  obtain ⟨tool, -, h⟩ := Option.bind_eq_some_iff.mp h
  obtain ⟨startedAt, -, h⟩ := Option.bind_eq_some_iff.mp h
  obtain ⟨finishedAt, -, h⟩ := Option.bind_eq_some_iff.mp h
  obtain ⟨verdict, -, h⟩ := Option.bind_eq_some_iff.mp h
  obtain ⟨w, hw, h⟩ := Option.bind_eq_some_iff.mp h
  obtain ⟨findings, hfindings, h⟩ := Option.bind_eq_some_iff.mp h
  obtain ⟨data, -, h⟩ := Option.bind_eq_some_iff.mp h
  obtain ⟨vs, hvs, hfindings⟩ := Option.bind_eq_some_iff.mp hfindings
  cases h
  exact ⟨w, vs, hw, hvs, hfindings⟩

/-! ## The room that payloads take -/

/-- The payload of a finding is free data one level further in, or null
because there was none. -/
theorem Finding.depth_le_of_yields {depth : Nat} {v : Value} {f : Finding}
    (hread : shape.Yields depth v) (h : ofNormal? v = some f) :
    f.data.depth + 1 ≤ depth ∧ f.data.Distinct := by
  rw [data_of_ofNormal? h]
  obtain ⟨inner, _, rfl, -⟩ := hread.record
  have hnull : Value.null.depth + 1 ≤ inner + 1 ∧ Value.null.Distinct :=
    ⟨Nat.succ_le_succ (Nat.zero_le inner), .null⟩
  cases hget : v.get? "data" with
  | none => exact hnull
  | some w =>
      obtain ⟨_, hinner, hw | hw⟩ := hread.field wellNamed rfl hget
      · cases hw
        exact hnull
      · cases hinner
        obtain ⟨hdepth, hdistinct⟩ := hw.depth_le_and_distinct
        exact ⟨Nat.succ_le_succ hdepth, hdistinct⟩

/-- The payloads of a report that was read lie three levels in, and are
nested no deeper than a text allows there. -/
theorem Report.depth_le_of_parse {text : String} {r : Report} (h : codec.parse text = .ok r) :
    ∀ f ∈ r.findings, f.data.depth + 3 ≤ maxDepth ∧ f.data.Distinct := by
  obtain ⟨v, hparse, h⟩ := bind_eq_ok_iff.mp h
  have hread := Shape.yields_of_parse hparse
  have hr : codec.ofNormal? v = some r := by
    cases hnormal : codec.ofNormal? v with
    | none =>
        rw [hnormal] at h
        cases h
    | some r' =>
        rw [hnormal] at h
        cases h
        rfl
  obtain ⟨w, vs, hget, hitems, hfindings⟩ := findings_of_ofNormal? hr
  obtain ⟨inner, hinner, hw | hw⟩ := hread.field wellNamed rfl hget
  · cases hw
  · obtain ⟨inner', vs', rfl, rfl, hall⟩ := hw.list
    cases hitems
    intro f hf
    obtain ⟨v, hv, hf⟩ :=
      exists_mem_of_forall₂ (forall₂_of_mapM hfindings fun _ _ _ hf => hf) f hf
    obtain ⟨hdepth, hdistinct⟩ := Finding.depth_le_of_yields (hall v hv) hf
    exact ⟨by omega, hdistinct⟩

/-! ## Normal form -/

theorem Report.parse_toJson_of_depth_le {r : Report}
    (hroom : ∀ f ∈ r.findings, f.data.depth + 3 ≤ maxDepth ∧ f.data.Distinct)
    (hlegible : ∀ f ∈ r.findings, f.data.Legible) : codec.parse r.toJson = .ok r := by
  refine Report.parse_toJson (show 123 + 4 ≤ maxDepth from Nat.le_refl _) fun f hf => ?_
  obtain ⟨hdepth, hdistinct⟩ := hroom f hf
  exact ⟨Nat.le_of_add_le_add_right hdepth, hdistinct, hlegible f hf⟩

/-- A report as others may write it: with a member that nobody knows, in
another order, with an array and an object in the place of a record and a
name, with `null`, and with a fraction that ends in a zero. -/
def looseRoot : Value := .object [
  ("verdict", .object [("fail", .null)]), ("extra", .array [.null]), ("schema", .string "s"),
  ("tool", .array [.string "t", .string "1"]),
  ("started_at", .string "2020-01-01t00:00:00.10-00:30"),
  ("finished_at", .string "2020-01-01T00:00:00z"),
  ("findings", .array [.object [("data", .object [("a", .boolean true)]), ("code", .string "c"),
    ("check_id", .string "k"), ("message", .string "m"), ("help", .null)]]),
  ("data", .object [("profile", .string "strict"), ("resources_scanned", .ofNat 1),
    ("abbreviations_loaded", .ofNat 0), ("findings_total", .ofNat 1)])]

/-- The report that it denotes. -/
def looseReport : Report where
  schema := "s"
  tool := ⟨"t", "1"⟩
  startedAt := ⟨2020, 1, 1, 0, 0, 0, 100000000, -30, by decide⟩
  finishedAt := ⟨2020, 1, 1, 0, 0, 0, 0, 0, by decide⟩
  verdict := .fail
  findings := [⟨"k", "c", "m", none, none, none, .object [("a", .boolean true)]⟩]
  data := ⟨none, "strict", 1, 0, [], 1⟩

theorem writable_looseRoot : looseRoot.Writable maxDepth := by
  have htext := Value.writable_string
  have hnull : ∀ depth, Value.null.Writable depth := fun depth => ⟨Nat.zero_le depth, .null, .null⟩
  have hdata : (Value.object [("a", .boolean true)]).Writable 124 :=
    Value.writable_singleton ⟨Nat.zero_le _, .boolean true, .boolean true⟩
  refine Value.writable_object (by decide) ?_
  simp only [List.forall_mem_cons]
  refine ⟨Value.writable_singleton (hnull _),
    Value.writable_array (List.forall_mem_singleton.mpr (hnull _)), htext _ _,
    Value.writable_array ?_, htext _ _, htext _ _,
    Value.writable_array (List.forall_mem_singleton.mpr (Value.writable_object (by decide) ?_)),
    Value.writable_object (by decide) ?_, by simp⟩
  · exact List.forall_mem_cons.mpr ⟨htext _ _, List.forall_mem_singleton.mpr (htext _ _)⟩
  · simp only [List.forall_mem_cons]
    exact ⟨hdata, htext _ _, htext _ _, htext _ _, hnull _, by simp⟩
  · simp only [List.forall_mem_cons]
    exact ⟨htext _ _, writable_word 1 _, writable_word 0 _, writable_word 1 _, by simp⟩

theorem parse_looseRoot : Report.codec.parse looseRoot.compact = .ok looseReport :=
  Codec.parse_of_tokens Report.wellNamed (Value.tokens_compact writable_looseRoot.legible)
    writable_looseRoot rfl

/-- Reading a report and writing it brings it into normal form.  Whatever
text is accepted, the text that is written of the report denotes the same
report, and writing what that text denotes gives the same bytes.  And of
the reports that are made in any other way, those are read back whose
payloads are nested no deeper than a text allows three levels in, and no
others.  Of the doubles in payloads it is assumed that they read back. -/
theorem report_normal_form :
    (∀ (text : String) (r : Report), Report.codec.parse text = .ok r →
      (∀ f ∈ r.findings, f.data.Legible) →
        (decode (encode r.toJson)).map Report.codec.parse = some (.ok r) ∧
          ∀ r', (decode (encode r.toJson)).map Report.codec.parse = some (.ok r') →
            r' = r ∧ encode r'.toJson = encode r.toJson) ∧
    ∀ r : Report, (∀ f ∈ r.findings, f.data.Distinct ∧ f.data.Legible) →
      ((decode (encode r.toJson)).map Report.codec.parse = some (.ok r) ↔
        ∀ f ∈ r.findings, f.data.depth + 3 ≤ maxDepth) := by
  have hbytes : ∀ r : Report, (decode (encode r.toJson)).map Report.codec.parse =
      some (Report.codec.parse r.toJson) := by
    intro r
    rw [decode_encode, Option.map_some]
  constructor
  · intro text r hparse hlegible
    have hback := Report.parse_toJson_of_depth_le (Report.depth_le_of_parse hparse) hlegible
    rw [hbytes, hback]
    refine ⟨rfl, fun r' hr' => ?_⟩
    cases hr'
    exact ⟨rfl, rfl⟩
  · intro r hdata
    rw [hbytes, Option.some.injEq]
    constructor
    · intro hparse f hf
      exact (Report.depth_le_of_parse hparse f hf).1
    · intro hdepth
      exact Report.parse_toJson_of_depth_le (fun f hf => ⟨hdepth f hf, (hdata f hf).1⟩)
        fun f hf => (hdata f hf).2

/-- The text of `looseRoot` is not in normal form, and the text that is
written of its report is. -/
theorem report_normal_form_of_looseRoot :
    Report.codec.parse looseRoot.compact = .ok looseReport ∧
      looseRoot.compact ≠ looseReport.toJson ∧
      (decode (encode looseReport.toJson)).map Report.codec.parse = some (.ok looseReport) := by
  have hlegible : ∀ f ∈ looseReport.findings, f.data.Legible := by
    refine List.forall_mem_singleton.mpr (.object (List.forall_mem_singleton.mpr ?_))
    exact .boolean true
  refine ⟨parse_looseRoot, ?_, (report_normal_form.1 _ _ parse_looseRoot hlegible).1⟩
  decide +kernel

end TemplateGate
