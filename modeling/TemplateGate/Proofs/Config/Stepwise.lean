/-
# `Proofs.Config.Stepwise` — a policy put together entry by entry

`resolve` says at once what a configuration amounts to.  Here a policy
comes about step by step: the draft of the profile is taken, its switches
are set one by one in the order of their keys, its table of SKUs is
cleared or kept, and the SKUs of the configuration are entered.  A step
may refuse its entry.

The switches of a draft stand in a table like any other, under the
identifiers of the checks, and a switch that is not there would come in
switched off.  It is always there (`Draft.Complete`): a profile has a
switch for every check, and each step keeps them.  The draft that is left
at the end is that of the policy which `resolve` returns, and the first
refusal is its fault (`draft_eq_map_resolve`).
-/
import TemplateGate.Proofs.Config.Effective
import TemplateGate.Proofs.Json.Reader

namespace TemplateGate

open Text

/-- A policy in the making: its switches are a table, with the identifiers of
checks as keys. -/
structure Policy.Draft where
  profile : String
  switches : Dictionary Bool
  oversized : Dictionary String

/-- The switches that a function describes, under the identifiers of the checks. -/
def Check.tableOf (on : Check → Bool) : Dictionary Bool :=
  .ofList (Check.all.map fun check => (check.id, on check))

/-- The draft that a policy is the outcome of. -/
def Policy.draft (p : Policy) : Policy.Draft :=
  ⟨p.profile, Check.tableOf p.enables, p.oversized⟩

/-- The draft of a profile, before any entry of a configuration. -/
def Profile.draft (p : Profile) : Policy.Draft :=
  ⟨p.name, Check.tableOf p.enables, defaultOversized⟩

/-- Puts an entry into what is being made, unless it is refused. -/
def putUnless {ε α σ : Type} (refuses : α → Bool) (fault : α → ε) (put : σ → α → σ)
    (s : σ) (e : α) : Except ε σ :=
  if refuses e then .error (fault e) else .ok (put s e)

namespace Policy.Draft

/-- Sets a switch as an entry of `checks` says, or leaves it as it is.  A
switch that is not there yet comes in switched off. -/
def setSwitch (d : Draft) (e : String × CheckSetting) : Draft :=
  { d with
    switches := d.switches.insert e.1 (e.2.enabled.getD ((d.switches.get? e.1).getD false)) }

/-- Works through an entry of `checks`, which has to name a check. -/
def stepSwitch : Draft → String × CheckSetting → Except ResolveError Draft :=
  putUnless (fun e => (Check.ofId? e.1).isNone) (fun e => .unknownCheck e.1) setSwitch

/-- Enters a SKU. -/
def setSku (d : Draft) (e : String × String) : Draft :=
  { d with oversized := d.oversized.insert e.1 e.2 }

/-- Works through an entry of the table of SKUs, which has to recommend something. -/
def stepSku : Draft → String × String → Except ResolveError Draft :=
  putUnless (fun e => allBlank e.2) (fun e => .blankRecommendation e.1) setSku

/-- Clears the table of SKUs if it is to be replaced. -/
def clear (replace : Bool) (d : Draft) : Draft :=
  if replace then { d with oversized := .empty } else d

/-- A draft has a switch for every check and for nothing else. -/
def Complete (d : Draft) : Prop :=
  ∀ id, (d.switches.get? id).isSome = true ↔ ∃ check : Check, check.id = id

end Policy.Draft

open Policy (Draft)

/-- The draft that a configuration makes of its profile. -/
def Config.draft (c : Config) (override : Option String) : Except ResolveError Draft :=
  match Profile.ofName? (c.profileName override) with
  | none => .error (.unknownProfile (c.profileName override))
  | some p => do
      let switched ← c.checks.entries.foldlM Draft.stepSwitch p.draft
      c.cost.oversized.entries.foldlM Draft.stepSku (switched.clear c.cost.replaceDefaults)

/-! ## Tables of switches -/

theorem Check.isNone_ofId?_iff {id : String} :
    (ofId? id).isNone = true ↔ ¬ ∃ check : Check, check.id = id := by
  rw [Option.isNone_iff_eq_none, Option.eq_none_iff_forall_ne_some]
  constructor
  · rintro h ⟨check, rfl⟩
    exact h check (ofId?_id check)
  · intro h check hcheck
    exact h ⟨check, (ofId?_eq_some_iff.mp hcheck).symm⟩

theorem Check.get?_tableOf (on : Check → Bool) (id : String) :
    (tableOf on).get? id = (ofId? id).map on := by
  have hkeys : ((all.map fun check => (check.id, on check)).map (·.1)).Nodup := by
    simp [all, Check.id]
  have hlookup : ∀ checks : List Check,
      Dictionary.lookup id (checks.map fun check => (check.id, on check)) =
        (checks.find? fun check => check.id = id).map on := by
    intro checks
    induction checks with
    | nil => rfl
    | cons check checks ih =>
        rw [List.map_cons, Dictionary.lookup, List.find?_cons]
        by_cases h : check.id = id
        · simp [h]
        · simp [h, ih]
  rw [tableOf, Dictionary.ofList, Dictionary.get?_foldl_insert hkeys, Dictionary.get?_empty,
    Option.or_none, hlookup]
  rfl

theorem Check.isSome_get?_tableOf {on : Check → Bool} {id : String} :
    ((tableOf on).get? id).isSome = true ↔ ∃ check : Check, check.id = id := by
  rw [get?_tableOf, Option.isSome_map, ← not_iff_not, ← isNone_ofId?_iff]
  cases ofId? id <;> simp

theorem Profile.complete_draft (p : Profile) : p.draft.Complete :=
  fun _ => Check.isSome_get?_tableOf

/-! ## Steps that may refuse -/

/-- Entries are put in one after the other, up to the first that is refused. -/
theorem foldlM_putUnless {ε α σ : Type} (refuses : α → Bool) (fault : α → ε) (put : σ → α → σ)
    (entries : List α) : ∀ s : σ, entries.foldlM (putUnless refuses fault put) s =
      match entries.find? refuses with
      | some e => .error (fault e)
      | none => .ok (entries.foldl put s) := by
  induction entries with
  | nil => exact fun _ => rfl
  | cons e entries ih =>
      intro s
      rw [List.foldlM_cons, List.find?_cons, putUnless]
      cases refuses e with
      | true => rfl
      | false => exact ih (put s e)

namespace Policy.Draft

variable {d d' : Draft} {e : String × CheckSetting}

/-- A step finds the switch of its check, and leaves every switch in its place. -/
theorem Complete.step (hd : d.Complete) (h : d.stepSwitch e = .ok d') :
    (d.switches.get? e.1).isSome = true ∧ d'.Complete := by
  unfold stepSwitch putUnless at h
  split at h
  · cases h
  · rename_i hknown
    cases h
    have hcheck : ∃ check : Check, check.id = e.1 :=
      not_not.mp (mt Check.isNone_ofId?_iff.mpr hknown)
    refine ⟨(hd e.1).mpr hcheck, fun id => ?_⟩
    rw [setSwitch, Dictionary.get?_insert]
    split
    · rename_i heq
      simpa [← heq] using hcheck
    · exact hd id

theorem Complete.run {entries : List (String × CheckSetting)} : ∀ {d d' : Draft}, d.Complete →
    entries.foldlM stepSwitch d = .ok d' → d'.Complete := by
  induction entries with
  | nil =>
      intro d d' hd h
      cases h
      exact hd
  | cons e entries ih =>
      intro d d' hd h
      rw [List.foldlM_cons] at h
      obtain ⟨d'', hstep, h⟩ := Json.bind_eq_ok_iff.mp h
      exact ih (hd.step hstep).2 h

end Policy.Draft

/-- Whatever a profile has been made into when the turn of an entry comes, a
switch that the entry sets is there. -/
theorem Profile.isSome_of_step {p : Profile} {before : List (String × CheckSetting)}
    {e : String × CheckSetting} {d d' : Draft}
    (hbefore : before.foldlM Draft.stepSwitch p.draft = .ok d) (hstep : d.stepSwitch e = .ok d') :
    (d.switches.get? e.1).isSome = true :=
  ((p.complete_draft.run hbefore).step hstep).1

/-! ## The finished draft -/

namespace Policy.Draft

theorem eq_of_foldl_setSwitch (entries : List (String × CheckSetting)) : ∀ d : Draft,
    entries.foldl setSwitch d = { d with switches := (entries.foldl setSwitch d).switches } := by
  induction entries with
  | nil => exact fun _ => rfl
  | cons e entries ih => exact fun d => ih (d.setSwitch e)

theorem get?_foldl_setSwitch (id : String) {entries : List (String × CheckSetting)} :
    ∀ {d : Draft}, (entries.map (·.1)).Nodup →
      (entries.foldl setSwitch d).switches.get? id =
        match Dictionary.lookup id entries with
        | some setting => some (setting.enabled.getD ((d.switches.get? id).getD false))
        | none => d.switches.get? id := by
  induction entries with
  | nil => exact fun _ => rfl
  | cons e entries ih =>
      intro d hkeys
      obtain ⟨hhead, hrest⟩ := List.nodup_cons.mp hkeys
      rw [List.foldl_cons, ih hrest, setSwitch, Dictionary.get?_insert]
      obtain ⟨key, setting⟩ := e
      by_cases hkey : key = id
      · subst hkey
        simp [Dictionary.lookup, Dictionary.lookup_eq_none_of_not_mem hhead]
      · simp [Dictionary.lookup, hkey]

theorem foldl_setSku (skus : Dictionary String) (d : Draft) :
    skus.entries.foldl setSku d = { d with oversized := d.oversized.overlay skus } := by
  have hrun : ∀ (entries : List (String × String)) (d : Draft), entries.foldl setSku d =
      { d with oversized := entries.foldl (fun table e => table.insert e.1 e.2) d.oversized } := by
    intro entries
    induction entries with
    | nil => exact fun _ => rfl
    | cons e entries ih => exact fun d => ih (d.setSku e)
  exact hrun skus.entries d

end Policy.Draft

namespace Config

variable {c : Config}

/-- A key of `checks` that names no check is there, or the switches of a
profile become those of the configuration. -/
theorem switches_foldl_setSwitch (h : c.unknownCheck? = none) (p : Profile) :
    (c.checks.entries.foldl Draft.setSwitch p.draft).switches = Check.tableOf (c.enables p) := by
  refine Dictionary.ext_get? fun id => ?_
  rw [Draft.get?_foldl_setSwitch id c.checks.nodup_keys, Profile.draft, Check.get?_tableOf,
    Check.get?_tableOf]
  show (match c.checks.get? id with | some setting => _ | none => _) = _
  cases hid : Check.ofId? id with
  | some check =>
      obtain rfl := Check.ofId?_eq_some_iff.mp hid
      rw [Option.map_some, Option.map_some, enables]
      cases c.checks.get? check.id <;> rfl
  | none =>
      have habsent : c.checks.get? id = none := by
        cases hget : c.checks.get? id with
        | none => rfl
        | some setting =>
            have hknown := List.find?_eq_none.mp (Option.map_eq_none_iff.mp h) _
              (Dictionary.mem_entries_iff.mpr hget)
            simp [hid] at hknown
      rw [habsent]
      rfl

/-- Step by step a configuration is made into the draft of the policy that it
resolves to, and what is refused first is the fault of its resolution. -/
theorem draft_eq_map_resolve (c : Config) (override : Option String) :
    c.draft override = (c.resolve override).map Policy.draft := by
  rw [draft, resolve]
  cases Profile.ofName? (c.profileName override) with
  | none => rfl
  | some p =>
      dsimp only
      rw [Draft.stepSwitch, foldlM_putUnless]
      cases hunknown : c.unknownCheck? with
      | some id =>
          obtain ⟨e, he, rfl⟩ := Option.map_eq_some_iff.mp hunknown
          rw [he]
          rfl
      | none =>
          rw [Option.map_eq_none_iff.mp hunknown]
          show c.cost.oversized.entries.foldlM Draft.stepSku _ = _
          rw [Draft.stepSku, foldlM_putUnless]
          cases hblank : c.blankSku? with
          | some sku =>
              obtain ⟨e, he, rfl⟩ := Option.map_eq_some_iff.mp hblank
              rw [he]
              rfl
          | none =>
              rw [Option.map_eq_none_iff.mp hblank]
              refine congrArg Except.ok ?_
              rw [Draft.foldl_setSku, Draft.eq_of_foldl_setSwitch,
                switches_foldl_setSwitch hunknown]
              have henables : Policy.enables ⟨p.name, .ofFn (c.enables p), c.oversized⟩ =
                  c.enables p := by
                funext check
                exact Switches.get_ofFn _ check
              rw [Policy.draft, henables, oversized]
              cases c.cost.replaceDefaults <;> rfl

end Config

end TemplateGate
