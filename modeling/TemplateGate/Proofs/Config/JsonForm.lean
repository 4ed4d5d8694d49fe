/-
# `Proofs.Config.JsonForm` — configurations are read back from JSON

The JSON form of a configuration leaves out what is not set and writes
everything else, with the keys of its maps in their order.  It is its own
normal form (`fit_toValue`), and a reader makes the configuration of it
again, whether it holds the value (`ofValue?_toValue`) or its text
(`parse_document`).  Unlike a report a configuration asks nothing of the
texts in it: it is nested three levels deep at most, and has no numbers.
-/
import TemplateGate.Config.Decode
import TemplateGate.Proofs.Dictionary
import TemplateGate.Proofs.Report.Codec

namespace TemplateGate

open Json

/-! ## Maps -/

namespace Dictionary

section Values

variable {α : Type} {f : α → Value} (d : Dictionary α)

theorem fit_object {item : Shape} (h : ∀ a, item.fit (f a) = some (f a)) :
    (Shape.dictionary item).fit (.object (d.entries.map fun e => (e.1, f e.2))) =
      some (.object (d.entries.map fun e => (e.1, f e.2))) := by
  have hmembers : (d.entries.map fun e => (e.1, f e.2)).mapM
      (fun m : String × Value => (item.fit m.2).map fun v => (m.1, v)) =
        some (d.entries.map fun e => (e.1, f e.2)) := by
    simp only [List.mapM_map, Function.comp_def, h]
    exact List.mapM_pure
  rw [Shape.fit, hmembers]
  rfl

theorem writable_object {depth : Nat} (h : ∀ a, (f a).Writable depth) :
    (Value.object (d.entries.map fun e => (e.1, f e.2))).Writable (depth + 1) := by
  refine Value.writable_object ?_ fun m hm => ?_
  · rw [Members.keys, List.map_map]
    exact d.nodup_keys
  · obtain ⟨e, -, rfl⟩ := List.mem_map.mp hm
    exact h e.2

end Values

theorem textsOf?_toValue (d : Dictionary String) : Config.textsOf? d.toValue = some d := by
  have hentries : (d.entries.map fun e => (e.1, Value.string e.2)).mapM
      (fun m : String × Value => m.2.text?.map fun s => (m.1, s)) = some d.entries := by
    rw [List.mapM_map]
    exact List.mapM_pure.trans (congrArg some (List.map_id _))
  exact Option.bind_eq_some_iff.mpr ⟨_, hentries, congrArg some d.ofList_entries⟩

end Dictionary

namespace Config

/-! ## Single checks -/

theorem fit_flag (b : Bool) : Shape.flag.fit (.boolean b) = some (.boolean b) := by rw [Shape.fit]

theorem settingValue_eq (s : CheckSetting) :
    settingValue s = .object (Finding.member? "enabled" (s.enabled.map .boolean)) := by
  obtain ⟨_ | b⟩ := s <;> rfl

theorem fit_settingValue (s : CheckSetting) :
    (Shape.record [("enabled", .omittable, .flag)]).fit (settingValue s) =
      some (settingValue s) := by
  have hget : Members.get? "enabled" (Finding.member? "enabled" (s.enabled.map .boolean)) =
      s.enabled.map .boolean := by
    rw [Members.get?_member?, if_pos rfl]
  have hflag : ∀ v ∈ s.enabled.map Value.boolean, v ≠ .null ∧ Shape.flag.fit v = some v := by
    rintro v hv
    obtain ⟨b, -, rfl⟩ := Option.map_eq_some_iff.mp hv
    exact ⟨by simp, fit_flag b⟩
  rw [settingValue_eq, Shape.fit, fitMembers_nullable rfl hget hflag, fitMembers_nil]
  simp

theorem enabled_settingValue (s : CheckSetting) :
    ((settingValue s).get? "enabled").bind Value.flag? = s.enabled := by
  obtain ⟨_ | b⟩ := s <;> rfl

theorem ofList_settings (d : Dictionary CheckSetting) :
    Dictionary.ofList ((d.entries.map fun e => (e.1, settingValue e.2)).map
      fun m : String × Value => (m.1, ⟨(m.2.get? "enabled").bind Value.flag?⟩)) = d := by
  have hentries : (d.entries.map fun e => (e.1, settingValue e.2)).map
      (fun m : String × Value => (m.1, (⟨(m.2.get? "enabled").bind Value.flag?⟩ : CheckSetting))) =
        d.entries := by
    rw [List.map_map]
    refine (List.map_congr_left fun e _ => ?_).trans (List.map_id _)
    exact congrArg (fun on => (e.1, CheckSetting.mk on)) (enabled_settingValue e.2)
  rw [hentries, d.ofList_entries]

/-! ## Configurations -/

/-- The table of checks as JSON. -/
def checksValue (c : Config) : Value :=
  .object (c.checks.entries.map fun e => (e.1, settingValue e.2))

/-- What is said about the table of SKUs, as JSON. -/
def costValue (c : Config) : Value :=
  .object [("replace_default_skus", .boolean c.cost.replaceDefaults),
    ("oversized_skus", c.cost.oversized.toValue)]

/-- The members that a configuration is written with. -/
def members (c : Config) : Members :=
  Finding.member? "schema" (c.schema.map .string) ++
    Finding.member? "profile" (c.profile.map .string) ++
    [("checks", c.checksValue), ("cost", c.costValue)]

theorem toValue_eq (c : Config) : c.toValue = .object c.members := by
  obtain ⟨_ | schema, _ | profile, checks, cost⟩ := c <;> rfl

theorem get?_schema (c : Config) : c.members.get? "schema" = c.schema.map .string := by
  simp [members, Members.get?_append, Members.get?_member?, Members.get?]

theorem get?_profile (c : Config) : c.members.get? "profile" = c.profile.map .string := by
  simp [members, Members.get?_append, Members.get?_member?, Members.get?]

theorem get?_checks (c : Config) : c.members.get? "checks" = some c.checksValue := by
  simp [members, Members.get?_append, Members.get?_member?, Members.get?]

theorem get?_cost (c : Config) : c.members.get? "cost" = some c.costValue := by
  simp [members, Members.get?_append, Members.get?_member?, Members.get?]

theorem fit_toValue (c : Config) : shape.fit c.toValue = some c.toValue := by
  have hchecks : (Shape.dictionary (.record [("enabled", .omittable, .flag)])).fit c.checksValue =
      some c.checksValue := c.checks.fit_object fit_settingValue
  have hcost : (Shape.record [("replace_default_skus", .default (.boolean false), .flag),
      ("oversized_skus", .default (.object []), .dictionary .text)]).fit c.costValue =
        some c.costValue := by
    rw [costValue, Shape.fit, fitMembers_present rfl rfl (fit_flag c.cost.replaceDefaults),
      fitMembers_present rfl rfl (c.cost.oversized.fit_object fit_text), fitMembers_nil]
    rfl
  rw [toValue_eq, shape, Shape.fit,
    fitMembers_nullable rfl c.get?_schema (fit_textMember c.schema),
    fitMembers_nullable rfl c.get?_profile (fit_textMember c.profile),
    fitMembers_present rfl c.get?_checks hchecks, fitMembers_present rfl c.get?_cost hcost,
    fitMembers_nil]
  simp [members]

theorem ofNormal?_toValue (c : Config) : ofNormal? c.toValue = some c := by
  have htext : ∀ {value : Option Value} {text : Option String}, value = text.map .string →
      value.bind Value.text? = text := by
    rintro _ (_ | text) rfl <;> rfl
  rw [toValue_eq, ofNormal?]
  refine Option.bind_eq_some_iff.mpr ⟨_, c.get?_cost, ?_⟩
  refine Option.bind_eq_some_iff.mpr ⟨_, c.get?_checks, ?_⟩
  refine Option.bind_eq_some_iff.mpr ⟨_, rfl, ?_⟩
  refine Option.bind_eq_some_iff.mpr ⟨_, rfl, ?_⟩
  refine Option.bind_eq_some_iff.mpr ⟨_, c.cost.oversized.textsOf?_toValue, ?_⟩
  rw [ofList_settings]
  have hschema := htext c.get?_schema
  have hprofile := htext c.get?_profile
  simp only [Value.get?, hschema, hprofile]
  rfl

/-- A configuration is read back from its JSON form. -/
theorem ofValue?_toValue (c : Config) : ofValue? c.toValue = some c :=
  Option.bind_eq_some_iff.mpr ⟨_, c.fit_toValue, c.ofNormal?_toValue⟩

/-! ## Texts -/

/-- The JSON form of configurations. -/
def codec : Codec Config := ⟨shape, ofNormal?, toValue, fun a b => a == b⟩

theorem wellNamed : codec.shape.WellNamed := by
  refine .record (by decide) ?_
  simp only [List.forall_mem_cons]
  refine ⟨.text, .text, .dictionary (.record (by decide) ?_), .record (by decide) ?_, by simp⟩
  · simp only [List.forall_mem_cons]
    exact ⟨.flag, by simp⟩
  · simp only [List.forall_mem_cons]
    exact ⟨.flag, .dictionary .text, by simp⟩

theorem nodup_keys_members (c : Config) : c.members.keys.Nodup := by
  have hsub : c.members.keys.Sublist ["schema", "profile", "checks", "cost"] := by
    simp only [members, Members.keys, List.map_append]
    exact ((keys_member? _ _).append (keys_member? _ _)).append (List.Sublist.refl _)
  exact hsub.nodup (by decide)

theorem writable_toValue (c : Config) : c.toValue.Writable 3 := by
  have hflag : ∀ (b : Bool) (depth : Nat), (Value.boolean b).Writable depth :=
    fun b depth => ⟨Nat.zero_le depth, .boolean b, .boolean b⟩
  have hchecks : c.checksValue.Writable 2 := by
    refine c.checks.writable_object fun setting => ?_
    obtain ⟨_ | b⟩ := setting
    · exact Value.writable_object List.nodup_nil (by simp)
    · exact Value.writable_singleton (hflag b 0)
  have hcost : c.costValue.Writable 2 := by
    refine Value.writable_object
      (show ["replace_default_skus", "oversized_skus"].Nodup by decide) ?_
    simp only [List.forall_mem_cons]
    exact ⟨hflag _ 1, c.cost.oversized.writable_object fun text => Value.writable_string text 0,
      by simp⟩
  rw [toValue_eq]
  refine Value.writable_object c.nodup_keys_members fun m hm => ?_
  simp only [members, List.mem_append, List.mem_cons, List.not_mem_nil, or_false] at hm
  rcases hm with (hm | hm) | rfl | rfl
  · exact writable_textMember hm 2
  · exact writable_textMember hm 2
  · exact hchecks
  · exact hcost

/-- A configuration is read back from the text of its JSON form. -/
theorem parse_document (c : Config) : codec.parse (codec.document c) = .ok c :=
  Codec.parse_document wellNamed (c.writable_toValue.mono (by decide)) c.ofValue?_toValue

end Config

end TemplateGate
