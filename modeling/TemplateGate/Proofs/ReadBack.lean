/-
# `Proofs.ReadBack` — the reports of runs are read back

A reader refuses a text that is nested deeper than `maxDepth`, and the
report of a run repeats values of a template that may be nested as deep as
that.  A report puts four levels around what it repeats: the report, its
findings, the finding and its payload.  The template has at least four
levels there as well: its root, the resources, the entry and the
properties.  `Value.Inside` counts such levels, `Document.Quotes` says what
a payload is made of, and no rule quotes anything that has fewer of them
around it (`Finding.quotes_of_mem_findings`).

The property that enforces HTTPS lies directly in the properties, so there
is no level to spare.  The witness is a template in which it is nested as
deep as a text may be.
-/
import TemplateGate.Proofs.Gate
import TemplateGate.Proofs.Report.Codec
import TemplateGate.Proofs.Sites

namespace TemplateGate

open Json Text

/-! ## What lies inside a value -/

/-- A value has another one in it, with a number of arrays and objects around that. -/
inductive Json.Value.Inside : Nat → Value → Value → Prop
  | here {v : Value} : Inside 0 v v
  | item {n : Nat} {vs : List Value} {v w : Value} :
      v ∈ vs → Inside n v w → Inside (n + 1) (.array vs) w
  | member {n : Nat} {ms : Members} {key : String} {v w : Value} :
      (key, v) ∈ ms → Inside n v w → Inside (n + 1) (.object ms) w

namespace Json.Value

/-- What a text can hold of a value it can hold of what lies inside, on
fewer levels. -/
theorem Inside.writable {n : Nat} {v w : Value} (h : Inside n v w) :
    ∀ {depth : Nat}, v.Writable (depth + n) → w.Writable depth := by
  induction h with
  | here => exact fun hv => hv
  | @item n vs v w hmem _ ih =>
      intro depth ⟨hdepth, hdistinct, hlegible⟩
      cases hdistinct with
      | array hdistinct =>
          cases hlegible with
          | array hlegible =>
              have hdepths := depthItems_le_iff.mp (Nat.le_of_succ_le_succ hdepth)
              exact ih ⟨hdepths v hmem, hdistinct v hmem, hlegible v hmem⟩
  | @member n ms key v w hmem _ ih =>
      intro depth ⟨hdepth, hdistinct, hlegible⟩
      cases hdistinct with
      | object _ hdistinct =>
          cases hlegible with
          | object hlegible =>
              have hdepths := depthMembers_le_iff.mp (Nat.le_of_succ_le_succ hdepth)
              exact ih ⟨hdepths _ hmem, hdistinct _ hmem, hlegible _ hmem⟩

end Json.Value

theorem Json.Value.At.inside {path : List String} {v w : Value} (h : At path v w) :
    Inside path.length v w := by
  induction h with
  | here => exact .here
  | step hget _ ih => exact .member (Members.mem_of_get? hget) ih

theorem Document.Declares.inside {root : Members} {v w : Value} (h : Declares root v) {n : Nat}
    (hin : v.Inside n w) : (Value.object root).Inside (n + 2) w := by
  cases h with
  | item hget hmem => exact .member (Members.mem_of_get? hget) (.item hmem hin)
  | member hget hmem => exact .member (Members.mem_of_get? hget) (.member hmem hin)

/-! ## What findings quote -/

/-- What the payload of a finding is made of: texts, nulls, and values of
the template with at least four levels of it around them. -/
inductive Document.Quotes (root : Members) : Value → Prop
  | text (s : String) : Quotes root (.string s)
  | null : Quotes root .null
  | value {n : Nat} {w : Value} : 4 ≤ n → (Value.object root).Inside n w → Quotes root w

/-- The payload of a finding is an object that quotes the template. -/
def Finding.Quotes (root : Members) (f : Finding) : Prop :=
  ∃ ms : Members, f.data = .object ms ∧ ms.keys.Nodup ∧ ∀ m ∈ ms, Document.Quotes root m.2

/-- A text that can hold the template can hold what is quoted of it, on four levels less. -/
theorem Document.Quotes.writable {root : Members} {w : Value} (h : Quotes root w) {depth : Nat}
    (hroot : (Value.object root).Writable (depth + 4)) : w.Writable depth := by
  cases h with
  | text s => exact Value.writable_string s depth
  | null => exact ⟨Nat.zero_le depth, .null, .null⟩
  | @value n _ hn hin =>
      exact hin.writable (hroot.mono (by omega))

theorem Finding.Quotes.writable {root : Members} {f : Finding} (h : f.Quotes root) {depth : Nat}
    (hroot : (Value.object root).Writable (depth + 4)) : f.data.Writable (depth + 1) := by
  obtain ⟨ms, hdata, hkeys, hquotes⟩ := h
  rw [hdata]
  exact Value.writable_object hkeys fun m hm => (hquotes m hm).writable hroot

theorem Document.quotes_property {root entry : Members} (h : Declares root (.object entry))
    {path : List String} (hpath : path ≠ []) :
    Quotes root (((Resource.ofMembers entry).property? path).getD .null) := by
  cases hproperty : (Resource.ofMembers entry).property? path with
  | none => exact .null
  | some w =>
      have hat := (Resource.property?_ofMembers_iff hpath).mp hproperty
      have hlength := List.length_pos_of_ne_nil hpath
      refine .value ?_ (h.inside hat.inside)
      rw [List.length_cons]
      omega

namespace Security

variable {root entry : Members}

theorem quotes_of_mem_violations (h : Document.Declares root (.object entry)) {rule : Rule}
    (hrule : rule ∈ Registry.builtin) {v : Violation}
    (hv : v ∈ rule.violations (.ofMembers entry)) :
    ∀ m ∈ v.data.members?.getD [], Document.Quotes root m.2 := by
  have hone : ∀ {key : String} {w : Value}, Document.Quotes root w →
      ∀ m ∈ [(key, w)], Document.Quotes root m.2 := by
    intro key w hw m hm
    rw [List.mem_singleton.mp hm]
    exact hw
  rcases eq_of_mem_violations hrule hv with rfl | rfl | rfl
  · exact hone (Document.quotes_property h (List.cons_ne_nil _ _))
  · exact hone (Document.quotes_property h (List.cons_ne_nil _ _))
  · exact hone (.text _)

theorem quotes_payload {kind : String} {r : Resource} {extra : Value}
    (h : ∀ m ∈ extra.members?.getD [], Document.Quotes root m.2) :
    (payload kind r extra).keys.Nodup ∧ ∀ m ∈ payload kind r extra, Document.Quotes root m.2 := by
  refine ⟨Members.nodup_keys_setAll (by simp [Members.keys]), fun m hm => ?_⟩
  rcases Members.mem_setAll hm with hm | hm
  · exact h m hm
  · simp only [List.mem_cons, List.not_mem_nil, or_false] at hm
    rcases hm with rfl | rfl | rfl <;> exact .text _

end Security

theorem Check.quotes_of_mem_findingsAt {root entry : Members}
    (h : Document.Declares root (.object entry)) {abbreviations oversized : Dictionary String}
    {c : Check} {index : Nat} {f : Finding}
    (hf : f ∈ c.findingsAt abbreviations oversized index (.ofMembers entry)) : f.Quotes root := by
  obtain ⟨site, hmakes⟩ := Check.exists_makes hf
  cases hmakes with
  | naming =>
      refine ⟨_, rfl, by simp [Members.keys], ?_⟩
      simp only [List.forall_mem_cons]
      exact ⟨.text _, .text _, .text _, by simp⟩
  | security hrule hv =>
      obtain ⟨hkeys, hquotes⟩ := Security.quotes_payload
        (Security.quotes_of_mem_violations h (List.mem_of_find?_eq_some hrule) hv)
      exact ⟨_, rfl, hkeys, hquotes⟩
  | cost =>
      refine ⟨_, rfl, by simp [Members.keys], ?_⟩
      simp only [List.forall_mem_cons]
      exact ⟨.text _, .text _, .text _, .text _, by simp⟩

/-- Whatever is found in a template quotes the template. -/
theorem Finding.quotes_of_mem_findings {root : Members} {entries : List Value}
    (hentries : Document.entries? root = some entries) {abbreviations : Dictionary String}
    {policy : Policy} {f : Finding}
    (hf : f ∈ findings (Document.ofEntries entries) abbreviations policy) : f.Quotes root := by
  obtain ⟨c, index, r, -, hr, hf⟩ := mem_findings_iff.mp hf
  obtain ⟨entry, hentry, rfl⟩ := Document.mem_ofEntries_iff.mp (List.mem_of_getElem? hr)
  exact Check.quotes_of_mem_findingsAt ((Document.mem_entries_iff hentries).mp hentry) hf

/-! ## Reports of runs -/

/-- A report puts four levels around the members of a payload. -/
theorem Report.inside_toValue {r : Report} {f : Finding} (hf : f ∈ r.findings) {ms : Members}
    (hdata : f.data = .object ms) {m : String × Value} (hm : m ∈ ms) :
    (Report.codec.toValue r).Inside 4 m.2 := by
  have hpayload : ("data", Value.object ms) ∈ Finding.member? "data" (Finding.payload? f.data) := by
    rw [hdata]
    exact List.mem_singleton_self _
  have hfinding : f.toValue.Inside 2 m.2 :=
    .member (List.mem_append_right _ hpayload) (.member hm .here)
  have hfindings : (Value.array (r.findings.map Finding.toValue)).Inside 3 m.2 :=
    .item (List.mem_map_of_mem hf) hfinding
  have hmember : ("findings", Value.array (r.findings.map Finding.toValue)) ∈
      [("schema", Value.string r.schema), ("tool", r.tool.toValue),
        ("started_at", .string r.startedAt.toText), ("finished_at", .string r.finishedAt.toText),
        ("verdict", .string r.verdict.name), ("findings", .array (r.findings.map Finding.toValue)),
        ("data", r.data.toValue)] := by simp
  exact .member hmember hfindings

variable {σ : Type} {host : Host (StateM σ)} {inputs : Inputs (StateM σ)} {s : σ}
  {text : String} {doc : Document} {config : Config} {policy : Policy}
  {abbreviations : Dictionary String}

/-- If the numbers of the template read back, so does the report of the
run, from its bytes and as it is.  What its findings repeat of the
template lies on four levels in the report, and on no fewer in the
template. -/
theorem report_reads_back
    (h : Prepared host inputs s text doc config policy abbreviations)
    (hlegible : ∀ v, Json.parse text = .ok v → v.Legible) :
    ∃ root report, Json.parse text = .ok (.object root) ∧
      (runCheck host inputs s).1.report? = some report ∧
      (decode (encode report.toJson)).map Report.codec.parse = some (.ok report) ∧
      ∀ f ∈ report.findings, ∃ ms, f.data = .object ms ∧ ∀ m ∈ ms,
        (Report.codec.toValue report).Inside 4 m.2 ∧ Document.Quotes root m.2 := by
  obtain ⟨root, entries, hroot, hentries, rfl⟩ := Document.eq_of_parse h.parsed
  obtain ⟨startedAt, finishedAt, hrun⟩ := runCheck_of_prepared h
  obtain ⟨hdepth, hdistinct⟩ := depth_le_and_distinct_of_parse hroot
  have hwritable : (Value.object root).Writable (123 + 4) := ⟨hdepth, hdistinct, hlegible _ hroot⟩
  have hquotes : ∀ f ∈ findings (Document.ofEntries entries) abbreviations policy, f.Quotes root :=
    fun f hf => Finding.quotes_of_mem_findings hentries hf
  refine ⟨root, _, hroot, by rw [hrun, Outcome.report?_ofReport], ?_, fun f hf => ?_⟩
  · rw [decode_encode, Option.map_some]
    refine congrArg some (Report.parse_toJson (Nat.le_refl _) fun f hf => ?_)
    exact (hquotes f hf).writable hwritable
  · obtain ⟨ms, hdata, _, hms⟩ := hquotes f hf
    exact ⟨ms, hdata, fun m hm => ⟨Report.inside_toValue hf hdata hm, hms m hm⟩⟩

/-- Arrays around a null. -/
def boxes : Nat → Value
  | 0 => .null
  | n + 1 => .array [boxes n]

theorem depth_boxes (n : Nat) : (boxes n).depth = n := by
  induction n with
  | zero => rfl
  | succ n ih => simp [boxes, Value.depth, Value.depthItems, ih]

theorem writable_boxes (n : Nat) : (boxes n).Writable n := by
  induction n with
  | zero => exact ⟨Nat.le_refl 0, .null, .null⟩
  | succ n ih => exact Value.writable_array (List.forall_mem_singleton.mpr ih)

/-- A template with a storage account whose property for HTTPS is nested
as deep as a text may be. -/
def deepRoot : Members := [("resources", .array [.object [
  ("type", .string "Microsoft.Storage/storageAccounts"),
  ("properties", .object [("supportsHttpsTrafficOnly", boxes 123)])]])]

theorem depth_deepRoot : (Value.object deepRoot).depth = maxDepth := by
  simp [deepRoot, Value.depth, Value.depthItems, Value.depthMembers, depth_boxes, maxDepth]

theorem writable_deepRoot : (Value.object deepRoot).Writable maxDepth := by
  refine Value.writable_singleton (Value.writable_array (List.forall_mem_singleton.mpr ?_))
  refine Value.writable_object (by decide) (List.forall_mem_cons.mpr
    ⟨Value.writable_string _ _, List.forall_mem_singleton.mpr ?_⟩)
  exact Value.writable_singleton (writable_boxes 123)

/-- A template that is nested as deep as a text may be has a report that is read back. -/
theorem report_of_deepRoot_reads_back :
    ∃ doc policy, Prepared Machine.host (.ofTemplate (.object deepRoot) none) .withTemplate
        (Value.object deepRoot).compact doc .default policy .empty ∧
      (∀ v, Json.parse (Value.object deepRoot).compact = .ok v → v.Legible) ∧
      (Value.object deepRoot).depth = maxDepth ∧
      ∃ report, (runCheck Machine.host (.ofTemplate (.object deepRoot) none)
          .withTemplate).1.report? = some report ∧
        (decode (encode report.toJson)).map Report.codec.parse = some (.ok report) := by
  have hresolved : Config.default.resolve none =
      .ok ⟨"strict", ⟨true, true, true⟩, defaultOversized⟩ := rfl
  have hprepared := prepared_ofTemplate writable_deepRoot rfl hresolved
  have hlegible : ∀ v, Json.parse (Value.object deepRoot).compact = .ok v → v.Legible := by
    intro v hv
    rw [parse_compact writable_deepRoot] at hv
    cases hv
    exact writable_deepRoot.legible
  obtain ⟨_, report, _, hreport, hread, _⟩ := report_reads_back hprepared hlegible
  exact ⟨_, _, hprepared, hlegible, depth_deepRoot, report, hreport, hread⟩

end TemplateGate
