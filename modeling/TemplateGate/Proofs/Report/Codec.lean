/-
# `Proofs.Report.Codec` — reports are read back as they are written

Every part of a report fits the shape of its type, and of the normal form
that it fits to the part is made again (`Codec.Inverts`).  Together with
the reader of shapes this makes `Codec.document` and `Codec.parse` inverse
to each other on whatever a text can hold (`Codec.parse_document`).

What a text can hold of a report is a question about the payloads of its
findings alone, since everything else in it is flat and has fixed keys:
`Report.writable_toValue` asks of every payload that a text could hold it,
and that it leaves room for the four levels around it.

The parts of a report are read back by themselves as well, and a reader
that does not know the summary has everything else (`Report.parse_leaveRaw`).
-/
import TemplateGate.Proofs.Json.Shape
import TemplateGate.Proofs.Timestamp
import TemplateGate.Report.Codec

namespace TemplateGate

open Json

/-! ## Words -/

theorem fits_of_word (n : UInt32) :
    -9223372036854775808 ≤ (n.toNat : Int) ∧ (n.toNat : Int) < 18446744073709551616 := by
  have h := n.toNat_lt
  omega

theorem ofNat?_of_ofInt? {n : Nat} {m : Number} (h : Number.ofInt? n = some m) :
    Number.ofNat? n = some m := by
  -- Opened at a variable, the bound of 64 bits would be evaluated, so the
  -- definition is opened as a function.
  have hopen : ∀ f, f = Number.ofNat? → f n = some m := by
    intro f hf
    delta Number.ofNat? at hf
    simp only [hf, h]
  exact hopen _ rfl

theorem ofNat_word (n : UInt32) :
    Value.ofNat n.toNat = .number (.integer n.toNat (fits_of_word n)) := by
  have hint : Number.ofInt? n.toNat = some (.integer n.toNat (fits_of_word n)) := by
    rw [Number.ofInt?]
    exact dif_pos _
  rw [Value.ofNat]
  rw [ofNat?_of_ofInt? hint]
  rfl

theorem word?_ofNat (n : UInt32) : word? (.ofNat n.toNat) = some n := by
  have h := n.toNat_lt
  rw [ofNat_word, word?, if_pos (by omega)]
  simp

theorem bind_word? {value : Option Value} {n : UInt32} (h : value = some (.ofNat n.toNat)) :
    value.bind word? = some n := by
  rw [h, Option.bind_some, word?_ofNat]

theorem fit_word (n : UInt32) : Shape.word.fit (.ofNat n.toNat) = some (.ofNat n.toNat) := by
  have h := n.toNat_lt
  have hword : (Number.integer n.toNat (fits_of_word n)).isWord = true := by
    rw [Number.isWord, Bool.and_eq_true, decide_eq_true_eq, decide_eq_true_eq]
    omega
  rw [ofNat_word, Shape.fit, if_pos hword]

/-! ## Members that fit -/

namespace Json.Members

theorem get?_member? (key k : String) (value : Option Value) :
    get? key (Finding.member? k value) = if k = key then value else none := by
  cases value with
  | none => simp [Finding.member?, get?]
  | some v => rfl

end Json.Members

section Fields

variable {name : String} {shape : Shape} {fields : Fields} {ms : Members}

/-- A field that may not be `null` contributes what its member fits to. -/
theorem fitMembers_present {presence : Presence} {v n : Value}
    (hnullable : Fields.isNullable presence = false) (hget : ms.get? name = some v)
    (hfit : shape.fit v = some n) : Shape.fitMembers ((name, presence, shape) :: fields) ms =
      (Shape.fitMembers fields ms).map ((name, n) :: ·) := by
  have hfield : fitField presence shape v = some (some n) := by
    unfold fitField
    rw [hnullable]
    cases v <;> exact congrArg (Option.map some) hfit
  rw [Fields.fitMembers_cons, hget]
  simp [hfield, Fields.headOf]

theorem fitMembers_required {v n : Value} (hget : ms.get? name = some v)
    (hfit : shape.fit v = some n) : Shape.fitMembers ((name, .required, shape) :: fields) ms =
      (Shape.fitMembers fields ms).map ((name, n) :: ·) :=
  fitMembers_present rfl hget hfit

/-- A field that may be `null` contributes its member, if it is there. -/
theorem fitMembers_nullable {presence : Presence} {value : Option Value}
    (hnullable : Fields.isNullable presence = true) (hget : ms.get? name = value)
    (hfit : ∀ v ∈ value, v ≠ .null ∧ shape.fit v = some v) :
    Shape.fitMembers ((name, presence, shape) :: fields) ms =
      (Shape.fitMembers fields ms).map (Finding.member? name value ++ ·) := by
  rw [Fields.fitMembers_cons, hget]
  cases value with
  | none =>
      have habsent : Fields.absent name presence = some [] := by
        cases presence <;> first | rfl | cases hnullable
      rw [habsent]
      rfl
  | some v =>
      obtain ⟨hnull, hfit⟩ := hfit v rfl
      have hfield : fitField presence shape v = some (some v) := by
        unfold fitField
        rw [hnullable]
        cases v with
        | null => exact absurd rfl hnull
        | _ => exact congrArg (Option.map some) hfit
      simp [hfield, Fields.headOf, Finding.member?]

theorem fitMembers_default {value : Option Value} {d n : Value} (hget : ms.get? name = value)
    (hfit : value.elim (some d) shape.fit = some n) :
    Shape.fitMembers ((name, .default d, shape) :: fields) ms =
      (Shape.fitMembers fields ms).map ((name, n) :: ·) := by
  cases value with
  | none =>
      cases hfit
      rw [Fields.fitMembers_cons, hget]
      rfl
  | some v => exact fitMembers_present rfl hget hfit

theorem fit_text (s : String) : Shape.text.fit (.string s) = some (.string s) := by
  rw [Shape.fit]
  rfl

theorem fit_textMember (text : Option String) :
    ∀ v ∈ text.map Value.string, v ≠ .null ∧ Shape.text.fit v = some v := by
  rintro v hv
  obtain ⟨s, _, rfl⟩ := Option.map_eq_some_iff.mp hv
  exact ⟨by simp, fit_text s⟩

theorem fitMembers_nil : Shape.fitMembers [] ms = some [] := by rw [Shape.fitMembers]

end Fields

/-! ## Parts that are made again -/

namespace ResourceRef

theorem fit_toValue (r : ResourceRef) : shape.fit r.toValue = some r.toValue := by
  rw [toValue, shape, Shape.fit, fitMembers_required rfl (fit_word r.index),
    fitMembers_required rfl (fit_text r.name), fitMembers_required rfl (fit_text r.type),
    fitMembers_nil]
  rfl

theorem ofNormal?_toValue (r : ResourceRef) : ofNormal? r.toValue = some r := by
  have hindex : r.toValue.get? "index" = some (.ofNat r.index.toNat) := rfl
  rw [ofNormal?, hindex, Option.bind_some, word?_ofNat]
  rfl

end ResourceRef

namespace Finding

/-- The members that a finding is written with. -/
def members (f : Finding) : Members :=
  [("check_id", .string f.checkId), ("code", .string f.code), ("message", .string f.message)] ++
    member? "resource" (f.resource.map ResourceRef.toValue) ++
    member? "help" (f.help.map .string) ++
    member? "fingerprint" (f.fingerprint.map .string) ++
    member? "data" (payload? f.data)

/-- The normal form of a finding: its payload is there even if it is null. -/
def normal (f : Finding) : Value :=
  .object (
    [("check_id", .string f.checkId), ("code", .string f.code), ("message", .string f.message)] ++
      (member? "resource" (f.resource.map ResourceRef.toValue) ++
        (member? "help" (f.help.map .string) ++
          (member? "fingerprint" (f.fingerprint.map .string) ++ [("data", f.data)]))))

theorem fit_toValue (f : Finding) : shape.fit f.toValue = some f.normal := by
  rw [toValue, shape, Shape.fit]
  -- Each optional member is looked up among all of them.
  have hresource : Members.get? "resource" (f.members) = f.resource.map ResourceRef.toValue := by
    simp [members, Members.get?_append, Members.get?_member?, Members.get?]
  have hhelp : Members.get? "help" (f.members) = f.help.map .string := by
    simp [members, Members.get?_append, Members.get?_member?, Members.get?]
  have hfingerprint : Members.get? "fingerprint" (f.members) = f.fingerprint.map .string := by
    simp [members, Members.get?_append, Members.get?_member?, Members.get?]
  have hdata : Members.get? "data" (f.members) = payload? f.data := by
    simp [members, Members.get?_append, Members.get?_member?, Members.get?]
  have href : ∀ v ∈ f.resource.map ResourceRef.toValue,
      v ≠ .null ∧ ResourceRef.shape.fit v = some v := by
    rintro v hv
    obtain ⟨r, _, rfl⟩ := Option.map_eq_some_iff.mp hv
    exact ⟨by simp [ResourceRef.toValue], r.fit_toValue⟩
  have hpayload : (payload? f.data).elim (some .null) Shape.any.fit = some f.data := by
    cases f.data <;> simp [payload?, Shape.fit]
  show (Shape.fitMembers _ f.members).map _ = _
  rw [fitMembers_required rfl (fit_text f.checkId), fitMembers_required rfl (fit_text f.code),
    fitMembers_required rfl (fit_text f.message), fitMembers_nullable rfl hresource href,
    fitMembers_nullable rfl hhelp (fit_textMember f.help),
    fitMembers_nullable rfl hfingerprint (fit_textMember f.fingerprint),
    fitMembers_default hdata hpayload, fitMembers_nil]
  rfl

theorem ofNormal?_normal (f : Finding) : ofNormal? f.normal = some f := by
  obtain ⟨checkId, code, message, resource, help, fingerprint, data⟩ := f
  cases resource <;> cases help <;> cases fingerprint <;>
    simp [ofNormal?, normal, Value.get?, Members.get?, member?, textAt?, Value.text?,
      ResourceRef.ofNormal?_toValue]

end Finding

/-! ## Data that are made again -/

namespace Codec

variable {α : Type}

/-- A datum is made again of what it is written as. -/
def Inverts (c : Codec α) (a : α) : Prop := c.fit? (c.toValue a) = some a

theorem inverts_iff {c : Codec α} {a : α} :
    c.Inverts a ↔ ∃ n, c.shape.fit (c.toValue a) = some n ∧ c.ofNormal? n = some a :=
  Option.bind_eq_some_iff

theorem exists_mapM_fit {c : Codec α} {as : List α} (h : ∀ a ∈ as, c.Inverts a) :
    ∃ ns, (as.map c.toValue).mapM c.shape.fit = some ns ∧ ns.mapM c.ofNormal? = some as := by
  induction as with
  | nil => exact ⟨[], rfl, rfl⟩
  | cons a as ih =>
      obtain ⟨n, hfit, hn⟩ := inverts_iff.mp (h a List.mem_cons_self)
      obtain ⟨ns, hfits, hns⟩ := ih fun b hb => h b (List.mem_cons_of_mem a hb)
      refine ⟨n :: ns, ?_, ?_⟩
      · rw [List.map_cons, List.mapM_cons, hfit, hfits]
        rfl
      · rw [List.mapM_cons, hn, hns]
        rfl

end Codec

theorem Finding.inverts (f : Finding) : Finding.codec.Inverts f :=
  Codec.inverts_iff.mpr ⟨f.normal, f.fit_toValue, f.ofNormal?_normal⟩

theorem Verdict.fit_name (v : Verdict) :
    Verdict.codec.shape.fit (.string v.name) = some (.string v.name) := by
  cases v <;> simp [codec, Shape.fit]

theorem Tool.fit_toValue (t : Tool) : Tool.shape.fit t.toValue = some t.toValue := by
  rw [toValue, shape, Shape.fit, fitMembers_required rfl (fit_text t.name),
    fitMembers_required rfl (fit_text t.version), fitMembers_nil]
  rfl

/-- The JSON form of texts. -/
def textCodec : Codec String := ⟨.text, Value.text?, .string, fun a b => a == b⟩

theorem inverts_textCodec (s : String) : textCodec.Inverts s :=
  Codec.inverts_iff.mpr ⟨.string s, fit_text s, rfl⟩

namespace Summary

/-- The members of a summary behind its template. -/
def members (s : Summary) (ids : List Value) : Members :=
  [("profile", .string s.profile),
    ("resources_scanned", .ofNat s.resourcesScanned.toNat),
    ("abbreviations_loaded", .ofNat s.abbreviationsLoaded.toNat),
    ("checks_run", .array ids), ("findings_total", .ofNat s.findingsTotal.toNat)]

/-- The members of a summary, its template included if it is set. -/
def allMembers (s : Summary) (ids : List Value) : Members :=
  Finding.member? "template" (s.template.map .string) ++ s.members ids

theorem get?_template (s : Summary) (ids : List Value) :
    (s.allMembers ids).get? "template" = s.template.map .string := by
  simp [allMembers, members, Members.get?_append, Members.get?_member?, Members.get?]

theorem get?_allMembers (s : Summary) (ids : List Value) {key : String} (h : key ≠ "template") :
    (s.allMembers ids).get? key = (s.members ids).get? key := by
  rw [allMembers, Members.get?_append, Members.get?_member?, if_neg (Ne.symm h), Option.none_or]

/-- What is found under the keys of a summary. -/
structure Holds (s : Summary) (ids : List Value) (ms : Members) : Prop where
  template : ms.get? "template" = s.template.map .string
  profile : ms.get? "profile" = some (.string s.profile)
  resourcesScanned : ms.get? "resources_scanned" = some (.ofNat s.resourcesScanned.toNat)
  abbreviationsLoaded : ms.get? "abbreviations_loaded" = some (.ofNat s.abbreviationsLoaded.toNat)
  checksRun : ms.get? "checks_run" = some (.array ids)
  findingsTotal : ms.get? "findings_total" = some (.ofNat s.findingsTotal.toNat)

theorem holds_allMembers (s : Summary) (ids : List Value) : s.Holds ids (s.allMembers ids) where
  template := s.get?_template ids
  profile := s.get?_allMembers ids (by decide)
  resourcesScanned := s.get?_allMembers ids (by decide)
  abbreviationsLoaded := s.get?_allMembers ids (by decide)
  checksRun := s.get?_allMembers ids (by decide)
  findingsTotal := s.get?_allMembers ids (by decide)

theorem fit_toValue {s : Summary} {ids : List Value}
    (hids : (s.checksRun.map .string).mapM Shape.text.fit = some ids) :
    shape.fit s.toValue = some (.object (s.allMembers ids)) := by
  have hlist : (some (Value.array (s.checksRun.map .string))).elim (some (.array []))
      (Shape.list .text).fit = some (.array ids) := by
    rw [Option.elim_some, Shape.fit, hids]
    rfl
  have h := s.holds_allMembers (s.checksRun.map .string)
  show shape.fit (.object (s.allMembers (s.checksRun.map .string))) = _
  rw [shape, Shape.fit, fitMembers_nullable rfl h.template (fit_textMember s.template),
    fitMembers_required h.profile (fit_text s.profile),
    fitMembers_required h.resourcesScanned (fit_word s.resourcesScanned),
    fitMembers_required h.abbreviationsLoaded (fit_word s.abbreviationsLoaded),
    fitMembers_default h.checksRun hlist,
    fitMembers_required h.findingsTotal (fit_word s.findingsTotal), fitMembers_nil]
  rfl

theorem ofNormal?_allMembers {s : Summary} {ids : List Value}
    (hids : ids.mapM Value.text? = some s.checksRun) :
    ofNormal? (.object (s.allMembers ids)) = some s := by
  have h := s.holds_allMembers ids
  have htemplate : textAt? "template" (.object (s.allMembers ids)) = s.template := by
    rw [textAt?, Value.get?, h.template]
    cases s.template <;> rfl
  have hprofile : textAt? "profile" (.object (s.allMembers ids)) = some s.profile := by
    rw [textAt?, Value.get?, h.profile]
    rfl
  rw [ofNormal?, htemplate]
  refine Option.bind_eq_some_iff.mpr ⟨_, hprofile, ?_⟩
  refine Option.bind_eq_some_iff.mpr ⟨_, bind_word? h.resourcesScanned, ?_⟩
  refine Option.bind_eq_some_iff.mpr ⟨_, bind_word? h.abbreviationsLoaded, ?_⟩
  refine Option.bind_eq_some_iff.mpr ⟨_, h.checksRun, Option.bind_eq_some_iff.mpr ⟨_, hids, ?_⟩⟩
  exact Option.bind_eq_some_iff.mpr ⟨_, bind_word? h.findingsTotal, rfl⟩

theorem inverts (s : Summary) : codec.Inverts s := by
  obtain ⟨ids, hfit, hids⟩ := Codec.exists_mapM_fit fun id (_ : id ∈ s.checksRun) =>
    inverts_textCodec id
  exact Codec.inverts_iff.mpr ⟨_, fit_toValue hfit, ofNormal?_allMembers hids⟩

end Summary

namespace Envelope

variable {δ : Type} {c : Codec δ}

theorem fit_time (t : Timestamp) :
    (Shape.textWhere fun s => (Timestamp.ofText? s).isSome).fit (.string t.toText) =
      some (.string t.toText) := by
  rw [Shape.fit]
  simp [Value.text?, Timestamp.ofText?_toText]

/-- The normal form of a report, from those of its findings and its data. -/
def normal (r : Envelope δ) (findings : List Value) (data : Value) : Value :=
  .object [("schema", .string r.schema), ("tool", r.tool.toValue),
    ("started_at", .string r.startedAt.toText), ("finished_at", .string r.finishedAt.toText),
    ("verdict", .string r.verdict.name), ("findings", .array findings), ("data", data)]

theorem fit_toValue {r : Envelope δ} {findings : List Value} {data : Value}
    (hfindings : (r.findings.map Finding.toValue).mapM Finding.shape.fit = some findings)
    (hdata : c.shape.fit (c.toValue r.data) = some data) :
    (shape c).fit (toValue c r) = some (r.normal findings data) := by
  have hlist : (Shape.list Finding.shape).fit (.array (r.findings.map Finding.toValue)) =
      some (.array findings) := by
    rw [Shape.fit, hfindings]
    rfl
  rw [toValue, shape, Shape.fit, fitMembers_required rfl (fit_text r.schema),
    fitMembers_required rfl r.tool.fit_toValue, fitMembers_required rfl (fit_time r.startedAt),
    fitMembers_required rfl (fit_time r.finishedAt),
    fitMembers_required rfl r.verdict.fit_name, fitMembers_required rfl hlist,
    fitMembers_required rfl hdata, fitMembers_nil]
  rfl

theorem ofNormal?_normal {r : Envelope δ} {findings : List Value} {data : Value}
    (hfindings : findings.mapM Finding.ofNormal? = some r.findings)
    (hdata : c.ofNormal? data = some r.data) :
    ofNormal? c (r.normal findings data) = some r := by
  have htime : ∀ {value : Option String} {t : Timestamp}, value = some t.toText →
      value.bind Timestamp.ofText? = some t := by
    rintro _ t rfl
    rw [Option.bind_some, Timestamp.ofText?_toText]
  have hverdict : ∀ {value : Option String}, value = some r.verdict.name →
      value.bind Verdict.ofName? = some r.verdict := by
    rintro _ rfl
    rw [Option.bind_some, Verdict.ofName?_name]
  rw [ofNormal?]
  refine Option.bind_eq_some_iff.mpr ⟨r.schema, rfl, ?_⟩
  refine Option.bind_eq_some_iff.mpr ⟨r.tool, rfl, ?_⟩
  refine Option.bind_eq_some_iff.mpr ⟨r.startedAt, htime rfl, ?_⟩
  refine Option.bind_eq_some_iff.mpr ⟨r.finishedAt, htime rfl, ?_⟩
  refine Option.bind_eq_some_iff.mpr ⟨r.verdict, hverdict rfl, ?_⟩
  refine Option.bind_eq_some_iff.mpr ⟨.array findings, rfl, ?_⟩
  exact Option.bind_eq_some_iff.mpr ⟨_, hfindings, Option.bind_eq_some_iff.mpr ⟨_, hdata, rfl⟩⟩

/-- A report is made again if the data that differ from tool to tool are. -/
theorem inverts {r : Envelope δ} (h : c.Inverts r.data) : (codec c).Inverts r := by
  obtain ⟨data, hfit, hdata⟩ := Codec.inverts_iff.mp h
  obtain ⟨findings, hfits, hfindings⟩ := Codec.exists_mapM_fit fun f (_ : f ∈ r.findings) =>
    f.inverts
  exact Codec.inverts_iff.mpr ⟨_, fit_toValue hfits hfit, ofNormal?_normal hfindings hdata⟩

end Envelope

theorem Report.inverts (r : Report) : Report.codec.Inverts r := Envelope.inverts r.data.inverts

/-! ## Texts -/

theorem ResourceRef.wellNamed : ResourceRef.shape.WellNamed := by
  refine .record (by decide) ?_
  simp only [List.forall_mem_cons]
  exact ⟨.word, .text, .text, by simp⟩

theorem Finding.wellNamed : Finding.shape.WellNamed := by
  refine .record (by decide) ?_
  simp only [List.forall_mem_cons]
  exact ⟨.text, .text, .text, ResourceRef.wellNamed, .text, .text, .any, by simp⟩

theorem Summary.wellNamed : Summary.shape.WellNamed := by
  refine .record (by decide) ?_
  simp only [List.forall_mem_cons]
  exact ⟨.text, .text, .word, .word, .list .text, .word, by simp⟩

theorem Tool.wellNamed : Tool.shape.WellNamed := by
  refine .record (by decide) ?_
  simp only [List.forall_mem_cons]
  exact ⟨.text, .text, by simp⟩

theorem Envelope.wellNamed {δ : Type} {c : Codec δ} (h : c.shape.WellNamed) :
    (shape c).WellNamed := by
  refine .record (show ["schema", "tool", "started_at", "finished_at", "verdict", "findings",
    "data"].Nodup by decide) ?_
  simp only [List.forall_mem_cons]
  exact ⟨.text, Tool.wellNamed, .textWhere _, .textWhere _, .choice _, .list Finding.wellNamed, h,
    by simp⟩

/-- In no record of a report do two fields share a name. -/
theorem Report.wellNamed : Report.codec.shape.WellNamed := Envelope.wellNamed Summary.wellNamed

theorem Value.tokens_document {v : Value} (h : v.Legible) :
    Json.tokens (v.pretty ++ "\n").toList = v.tokens := by
  have hstop : Text.Stops goesOn ['\n'] := Text.stops_cons.mpr rfl
  have hline : Json.tokens ['\n'] = [] := tokens_layout rfl []
  have htokens := tokens_print Layout.blank_pretty h 0 hstop
  rw [hline, List.append_nil] at htokens
  rw [Value.pretty, String.toList_append, String.toList_ofList]
  exact htokens

theorem Codec.parse_of_tokens {α : Type} {c : Codec α} {text : String} {v : Value} {a : α}
    (hnames : c.shape.WellNamed) (htokens : Json.tokens text.toList = v.tokens)
    (hwritable : v.Writable maxDepth) (h : c.fit? v = some a) : c.parse text = .ok a := by
  obtain ⟨n, hfit, hn⟩ := Option.bind_eq_some_iff.mp h
  have hread := Shape.agrees hnames hwritable.depth_le hwritable.distinct hfit []
  rw [List.append_nil] at hread
  have hparse : c.shape.parse text = .ok n := by
    rw [Shape.parse, htokens, hread]
    rfl
  refine bind_eq_ok_iff.mpr ⟨n, hparse, ?_⟩
  rw [hn]

/-- A datum is read back from its text, if a text can hold what it is written as. -/
theorem Codec.parse_document {α : Type} {c : Codec α} {a : α} (hnames : c.shape.WellNamed)
    (hwritable : (c.toValue a).Writable maxDepth) (h : c.Inverts a) :
    c.parse (c.document a) = .ok a :=
  parse_of_tokens hnames (Value.tokens_document hwritable.legible) hwritable h

theorem Codec.parse_compact {α : Type} {c : Codec α} {a : α} (hnames : c.shape.WellNamed)
    (hwritable : (c.toValue a).Writable maxDepth) (h : c.Inverts a) :
    c.parse (c.compact a) = .ok a :=
  parse_of_tokens hnames (Value.tokens_compact hwritable.legible) hwritable h

/-! ## What a text can hold of a report -/

theorem keys_member? (key : String) (value : Option Value) :
    (Members.keys (Finding.member? key value)).Sublist [key] := by
  cases value with
  | none => exact List.nil_sublist _
  | some v => exact List.Sublist.refl _

theorem mem_member? {key : String} {value : Option Value} {m : String × Value}
    (h : m ∈ Finding.member? key value) : value = some m.2 := by
  cases value with
  | none => cases h
  | some v =>
      rw [Finding.member?, Option.map_some, Option.toList_some, List.mem_singleton] at h
      rw [h]

theorem writable_word (n : UInt32) (depth : Nat) : (Value.ofNat n.toNat).Writable depth := by
  rw [ofNat_word]
  exact ⟨Nat.zero_le depth, .number _, .integer _ _⟩

theorem writable_textMember {key : String} {text : Option String} {m : String × Value}
    (h : m ∈ Finding.member? key (text.map .string)) (depth : Nat) : m.2.Writable depth := by
  obtain ⟨s, _, hs⟩ := Option.map_eq_some_iff.mp (mem_member? h)
  exact hs ▸ Value.writable_string s depth

theorem ResourceRef.writable (r : ResourceRef) (depth : Nat) : r.toValue.Writable (depth + 1) := by
  refine Value.writable_object (show ["index", "name", "type"].Nodup by decide) ?_
  simp only [List.forall_mem_cons]
  exact ⟨writable_word _ _, Value.writable_string _ _, Value.writable_string _ _, by simp⟩

namespace Finding

theorem nodup_keys_members (f : Finding) : f.members.keys.Nodup := by
  have hsub : f.members.keys.Sublist
      ["check_id", "code", "message", "resource", "help", "fingerprint", "data"] := by
    simp only [members, Members.keys, List.map_append]
    exact ((((List.Sublist.refl _).append (keys_member? _ _)).append (keys_member? _ _)).append
      (keys_member? _ _)).append (keys_member? _ _)
  exact hsub.nodup (by decide)

/-- A finding needs one level more than its payload. -/
theorem writable_toValue {f : Finding} {depth : Nat} (h : f.data.Writable (depth + 1)) :
    f.toValue.Writable (depth + 2) := by
  refine Value.writable_object f.nodup_keys_members fun m hm => ?_
  simp only [List.append_assoc, List.mem_append] at hm
  rcases hm with hm | hm | hm | hm | hm
  · have hall : ∀ m ∈ [("check_id", Value.string f.checkId), ("code", .string f.code),
        ("message", .string f.message)], m.2.Writable (depth + 1) := by
      simp only [List.forall_mem_cons]
      exact ⟨Value.writable_string _ _, Value.writable_string _ _, Value.writable_string _ _,
        by simp⟩
    exact hall m hm
  · obtain ⟨r, _, hr⟩ := Option.map_eq_some_iff.mp (mem_member? hm)
    exact hr ▸ r.writable depth
  · exact writable_textMember hm (depth + 1)
  · exact writable_textMember hm (depth + 1)
  · have hdata : payload? f.data = some m.2 := mem_member? hm
    have heq : f.data = m.2 := by
      cases hdata' : f.data with
      | null =>
          rw [hdata'] at hdata
          cases hdata
      | _ =>
          rw [hdata'] at hdata
          exact Option.some.inj hdata
    exact heq ▸ h

end Finding

namespace Summary

theorem writable_toValue (s : Summary) : s.toValue.Writable 2 := by
  have hkeys : (Members.keys (s.allMembers (s.checksRun.map .string))).Nodup := by
    have hsub : (Members.keys (s.allMembers (s.checksRun.map .string))).Sublist
        ["template", "profile", "resources_scanned", "abbreviations_loaded", "checks_run",
          "findings_total"] := by
      simp only [allMembers, Members.keys, List.map_append]
      exact (keys_member? _ _).append (List.Sublist.refl _)
    exact hsub.nodup (by decide)
  have hids : (Value.array (s.checksRun.map .string)).Writable 1 := by
    refine Value.writable_array fun v hv => ?_
    obtain ⟨id, _, rfl⟩ := List.mem_map.mp hv
    exact Value.writable_string id 0
  refine Value.writable_object hkeys fun m hm => ?_
  rcases List.mem_append.mp hm with hm | hm
  · exact writable_textMember hm 1
  · have hall : ∀ m ∈ s.members (s.checksRun.map .string), m.2.Writable 1 := by
      simp only [members, List.forall_mem_cons]
      exact ⟨Value.writable_string _ _, writable_word _ _, writable_word _ _, hids,
        writable_word _ _, by simp⟩
    exact hall m hm

end Summary

theorem Tool.writable_toValue (t : Tool) (depth : Nat) : t.toValue.Writable (depth + 1) := by
  refine Value.writable_object (show ["name", "version"].Nodup by decide) ?_
  simp only [List.forall_mem_cons]
  exact ⟨Value.writable_string _ _, Value.writable_string _ _, by simp⟩

/-- A report needs three levels more than the payloads of its findings. -/
theorem Report.writable_toValue {r : Report} {depth : Nat}
    (h : ∀ f ∈ r.findings, f.data.Writable (depth + 1)) :
    (Report.codec.toValue r).Writable (depth + 4) := by
  have hfindings : (Value.array (r.findings.map Finding.toValue)).Writable (depth + 3) := by
    refine Value.writable_array fun v hv => ?_
    obtain ⟨f, hf, rfl⟩ := List.mem_map.mp hv
    exact Finding.writable_toValue (h f hf)
  have htool : r.tool.toValue.Writable (depth + 3) := r.tool.writable_toValue (depth + 2)
  have hdata : r.data.toValue.Writable (depth + 3) := r.data.writable_toValue.mono (by omega)
  refine Value.writable_object (show ["schema", "tool", "started_at", "finished_at", "verdict",
    "findings", "data"].Nodup by decide) ?_
  simp only [List.forall_mem_cons]
  exact ⟨Value.writable_string _ _, htool, Value.writable_string _ _, Value.writable_string _ _,
    Value.writable_string _ _, hfindings, hdata, by simp⟩

/-- A report is read back from its text if a text has room for the payloads
of its findings. -/
theorem Report.parse_toJson {r : Report} {depth : Nat} (hdepth : depth + 4 ≤ maxDepth)
    (h : ∀ f ∈ r.findings, f.data.Writable (depth + 1)) : Report.codec.parse r.toJson = .ok r :=
  Codec.parse_document Report.wellNamed ((Report.writable_toValue h).mono hdepth) r.inverts

/-! ## Readers of parts -/

theorem ResourceRef.inverts (r : ResourceRef) : codec.Inverts r :=
  Codec.inverts_iff.mpr ⟨_, r.fit_toValue, r.ofNormal?_toValue⟩

theorem Tool.inverts (t : Tool) : codec.Inverts t :=
  Codec.inverts_iff.mpr ⟨_, t.fit_toValue, rfl⟩

theorem Verdict.inverts (v : Verdict) : codec.Inverts v :=
  Codec.inverts_iff.mpr ⟨_, v.fit_name, ofName?_name v⟩

theorem ResourceRef.parse_compact (r : ResourceRef) : codec.parse (codec.compact r) = .ok r :=
  Codec.parse_compact ResourceRef.wellNamed ((r.writable 0).mono (by decide)) r.inverts

theorem Tool.parse_compact (t : Tool) : codec.parse (codec.compact t) = .ok t :=
  Codec.parse_compact Tool.wellNamed ((t.writable_toValue 0).mono (by decide)) t.inverts

theorem Verdict.parse_compact (v : Verdict) : codec.parse (codec.compact v) = .ok v :=
  Codec.parse_compact (.choice _) (Value.writable_string v.name maxDepth) v.inverts

theorem Summary.parse_compact (s : Summary) : codec.parse (codec.compact s) = .ok s :=
  Codec.parse_compact Summary.wellNamed (s.writable_toValue.mono (by decide)) s.inverts

theorem Finding.parse_compact {f : Finding} {depth : Nat} (hdepth : depth + 2 ≤ maxDepth)
    (h : f.data.Writable (depth + 1)) : codec.parse (codec.compact f) = .ok f :=
  Codec.parse_compact Finding.wellNamed ((Finding.writable_toValue h).mono hdepth) f.inverts

theorem Codec.inverts_raw (v : Value) : raw.Inverts v :=
  Codec.inverts_iff.mpr ⟨v, by rw [raw, Shape.fit]; rfl, rfl⟩

/-- A report whose summary is left as JSON. -/
def Report.leaveRaw (r : Report) : Envelope Value :=
  ⟨r.schema, r.tool, r.startedAt, r.finishedAt, r.verdict, r.findings, r.data.toValue⟩

theorem Report.toValue_leaveRaw (r : Report) :
    (Envelope.codec Codec.raw).toValue r.leaveRaw = codec.toValue r := rfl

/-- A reader that does not know the summary reads all the rest of a report, and
the summary as it stands. -/
theorem Report.parse_leaveRaw {r : Report} {depth : Nat} (hdepth : depth + 4 ≤ maxDepth)
    (h : ∀ f ∈ r.findings, f.data.Writable (depth + 1)) :
    (Envelope.codec Codec.raw).parse r.toJson = .ok r.leaveRaw := by
  have hwritable := (Report.writable_toValue h).mono hdepth
  rw [← toValue_leaveRaw] at hwritable
  rw [toJson, Codec.document, ← toValue_leaveRaw]
  exact Codec.parse_document (Envelope.wellNamed .any) hwritable
    (Envelope.inverts (Codec.inverts_raw r.data.toValue))

end TemplateGate
