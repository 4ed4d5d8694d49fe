/-
# `Proofs.Config.Resolution` — what resolves, to what, and with which fault

Resolution is said here without its steps.  `AsksFor` is the profile that
counts, `Refuses` the fault that is reported, and `Settles` the policy, key
by key; none of them mentions `resolve`.  Three things can be wrong with a
configuration, and of several the profile comes first, then the keys of
`checks`, then the SKUs; of several keys it is the least by its bytes,
because the entries of a dictionary stand in that order
(`find?_eq_some_iff_foremost`).

`resolution_exact` says that this is all there is to it: a configuration
resolves to the one policy that it settles if nothing is wrong with it, and
otherwise fails with the one fault that it is refused for.
-/
import TemplateGate.Proofs.Config.Stepwise
import TemplateGate.Proofs.Stages
import TemplateGate.Proofs.Text.Utf8

namespace TemplateGate

open Text
open Policy (Draft)

/-! ## The first of several -/

/-- Of the texts with a property, the first one in the order of their bytes. -/
structure Foremost (P : String → Prop) (s : String) : Prop where
  holds : P s
  least : ∀ t, P t → t ≠ s → encode s < encode t

theorem Foremost.unique {P : String → Prop} {s t : String} (hs : Foremost P s)
    (ht : Foremost P t) : s = t := by
  by_contra hne
  have hst := encode_lt_encode_iff.mp (hs.least t ht.holds (Ne.symm hne))
  exact String.lt_asymm hst (encode_lt_encode_iff.mp (ht.least s hs.holds hne))

/-- The first entry that passes a test has the first key of all that do. -/
theorem Dictionary.find?_eq_some_iff_foremost {α : Type} {d : Dictionary α}
    {test : String × α → Bool} {key : String} :
    (d.entries.find? test).map (·.1) = some key ↔
      Foremost (fun key => ∃ value, (key, value) ∈ d.entries ∧ test (key, value) = true) key := by
  have hfound : ∀ {e : String × α}, d.entries.find? test = some e →
      Foremost (fun key => ∃ value, (key, value) ∈ d.entries ∧ test (key, value) = true) e.1 := by
    intro e he
    refine ⟨⟨e.2, List.mem_of_find?_eq_some he, List.find?_some he⟩, ?_⟩
    rintro t ⟨value, hmem, htest⟩ hne
    obtain ⟨-, before, after, hentries, hbefore⟩ := List.find?_eq_some_iff_append.mp he
    have hinc := d.increasing
    rw [hentries] at hmem hinc
    rcases List.mem_append.mp hmem with hmem | hmem
    · -- Nothing before the entry passes.
      have hfails := hbefore _ hmem
      simp [htest] at hfails
    · rcases List.mem_cons.mp hmem with rfl | hmem
      · exact absurd rfl hne
      · have hlater := (List.pairwise_cons.mp (List.pairwise_append.mp hinc).2.1).1 _ hmem
        exact encode_lt_encode_iff.mpr hlater
  constructor
  · intro h
    obtain ⟨e, he, rfl⟩ := Option.map_eq_some_iff.mp h
    exact hfound he
  · intro h
    obtain ⟨value, hmem, htest⟩ := h.holds
    cases he : d.entries.find? test with
    | none => exact absurd htest (List.find?_eq_none.mp he _ hmem)
    | some e => rw [Option.map_some, (hfound he).unique h]

/-! ## Policies -/

theorem Policy.ext_enables {p q : Policy} (hprofile : p.profile = q.profile)
    (henables : ∀ check, p.enables check = q.enables check) (htable : p.oversized = q.oversized) :
    p = q := by
  have hswitches : p.switches = q.switches := by
    rw [← Switches.ofFn_get p.switches, ← Switches.ofFn_get q.switches]
    exact congrArg Switches.ofFn (funext henables)
  cases p
  cases q
  exact (Policy.mk.injEq ..).mpr ⟨hprofile, hswitches, htable⟩

namespace Config

variable {c : Config} {override : Option String} {profile : String} {policy policy' : Policy}

/-! ## What is asked for -/

/-- The profile that counts: the one given from outside, or else the one that
the configuration names, or else `strict`. -/
inductive AsksFor (c : Config) : Option String → String → Prop
  | outside (name : String) : AsksFor c (some name) name
  | inside {name : String} : c.profile = some name → AsksFor c none name
  | standard : c.profile = none → AsksFor c none "strict"

theorem asksFor_iff : c.AsksFor override profile ↔ profile = c.profileName override := by
  constructor
  · intro h
    cases h with
    | outside => rfl
    | inside h => rw [profileName, h]; rfl
    | standard h => rw [profileName, h]; rfl
  · rintro rfl
    cases override with
    | some name => exact .outside name
    | none =>
        cases h : c.profile with
        | some name => rw [profileName, h]; exact .inside h
        | none => rw [profileName, h]; exact .standard h

/-- The names that profiles have. -/
def KnownProfile (name : String) : Prop := name = "strict" ∨ name = "security-only"

theorem knownProfile_iff {name : String} : KnownProfile name ↔ ∃ p : Profile, p.name = name := by
  constructor
  · rintro (rfl | rfl)
    · exact ⟨.strict, rfl⟩
    · exact ⟨.securityOnly, rfl⟩
  · rintro ⟨p, rfl⟩
    cases p with
    | strict => exact .inl rfl
    | securityOnly => exact .inr rfl

theorem ofName?_eq_none_iff {name : String} :
    Profile.ofName? name = none ↔ ¬ KnownProfile name := by
  rw [knownProfile_iff]
  constructor
  · rintro h ⟨p, rfl⟩
    rw [Profile.ofName?_name] at h
    cases h
  · intro h
    cases hp : Profile.ofName? name with
    | none => rfl
    | some p => exact absurd ⟨p, (eq_name_of_ofName? hp).symm⟩ h

/-! ## What can be wrong -/

/-- A key of `checks` that names no check, whatever is set under it. -/
def UnknownKey (c : Config) (id : String) : Prop :=
  ∃ setting, (id, setting) ∈ c.checks.entries ∧ ¬ ∃ check : Check, check.id = id

/-- A SKU whose recommendation is nothing but white space. -/
def BlankSku (c : Config) (sku : String) : Prop :=
  ∃ recommendation, (sku, recommendation) ∈ c.cost.oversized.entries ∧ Blank recommendation

/-- The fault that is reported: an unknown profile, or else the first unknown
key, or else the first SKU without a recommendation. -/
inductive Refuses (c : Config) (profile : String) : ResolveError → Prop
  | profile : ¬ KnownProfile profile → Refuses c profile (.unknownProfile profile)
  | key {id : String} : KnownProfile profile → Foremost c.UnknownKey id →
      Refuses c profile (.unknownCheck id)
  | sku {sku : String} : KnownProfile profile → (∀ id, ¬ c.UnknownKey id) →
      Foremost c.BlankSku sku → Refuses c profile (.blankRecommendation sku)

theorem unknownCheck?_eq_some_iff {id : String} :
    c.unknownCheck? = some id ↔ Foremost c.UnknownKey id := by
  rw [unknownCheck?, Dictionary.find?_eq_some_iff_foremost]
  simp only [Check.isNone_ofId?_iff]
  rfl

theorem blankSku?_eq_some_iff {sku : String} :
    c.blankSku? = some sku ↔ Foremost c.BlankSku sku := by
  rw [blankSku?, Dictionary.find?_eq_some_iff_foremost]
  simp only [allBlank_iff]
  rfl

theorem unknownCheck?_eq_none_iff : c.unknownCheck? = none ↔ ∀ id, ¬ c.UnknownKey id := by
  rw [unknownCheck?, Option.map_eq_none_iff, List.find?_eq_none]
  constructor
  · rintro h id ⟨setting, hmem, hunknown⟩
    exact h _ hmem (Check.isNone_ofId?_iff.mpr hunknown)
  · rintro h ⟨id, setting⟩ hmem hnone
    exact h id ⟨setting, hmem, Check.isNone_ofId?_iff.mp hnone⟩

theorem blankSku?_eq_none_iff : c.blankSku? = none ↔ ∀ sku, ¬ c.BlankSku sku := by
  rw [blankSku?, Option.map_eq_none_iff, List.find?_eq_none]
  constructor
  · rintro h sku ⟨recommendation, hmem, hblank⟩
    exact h _ hmem (allBlank_iff.mpr hblank)
  · rintro h ⟨sku, recommendation⟩ hmem hblank
    exact h sku ⟨recommendation, hmem, allBlank_iff.mp hblank⟩

/-- A configuration that nothing is wrong with is refused for nothing. -/
theorem exists_refuses_iff : (∃ e, c.Refuses profile e) ↔
    ¬ KnownProfile profile ∨ (∃ id, c.UnknownKey id) ∨ ∃ sku, c.BlankSku sku := by
  constructor
  · rintro ⟨e, h⟩
    cases h with
    | profile h => exact .inl h
    | key _ h => exact .inr (.inl ⟨_, h.holds⟩)
    | sku _ _ h => exact .inr (.inr ⟨_, h.holds⟩)
  · intro h
    by_cases hprofile : KnownProfile profile
    · cases hkey : c.unknownCheck? with
      | some id => exact ⟨_, .key hprofile (unknownCheck?_eq_some_iff.mp hkey)⟩
      | none =>
          have hkeys := unknownCheck?_eq_none_iff.mp hkey
          obtain ⟨sku, hblank⟩ : ∃ sku, c.BlankSku sku := by
            rcases h with h | ⟨id, h⟩ | h
            · exact absurd hprofile h
            · exact absurd h (hkeys id)
            · exact h
          cases hsku : c.blankSku? with
          | some sku => exact ⟨_, .sku hprofile hkeys (blankSku?_eq_some_iff.mp hsku)⟩
          | none => exact absurd hblank (blankSku?_eq_none_iff.mp hsku sku)
    · exact ⟨_, .profile hprofile⟩

theorem resolve_eq_error_iff {e : ResolveError} :
    c.resolve override = .error e ↔ c.Refuses (c.profileName override) e := by
  constructor
  · intro h
    rw [resolve] at h
    split at h
    · rename_i hprofile
      cases h
      exact .profile (ofName?_eq_none_iff.mp hprofile)
    · rename_i p hp
      have hprofile : KnownProfile (c.profileName override) :=
        knownProfile_iff.mpr ⟨p, (eq_name_of_ofName? hp).symm⟩
      split at h
      · rename_i hkey
        cases h
        exact .key hprofile (unknownCheck?_eq_some_iff.mp hkey)
      · rename_i hkeys
        split at h
        · rename_i hsku
          cases h
          exact .sku hprofile (unknownCheck?_eq_none_iff.mp hkeys) (blankSku?_eq_some_iff.mp hsku)
        · cases h
  · intro h
    have hknown : KnownProfile (c.profileName override) →
        ∃ p, Profile.ofName? (c.profileName override) = some p := fun hprofile =>
      Option.ne_none_iff_exists'.mp (mt ofName?_eq_none_iff.mp (not_not_intro hprofile))
    rw [resolve]
    cases h with
    | profile h => rw [ofName?_eq_none_iff.mpr h]
    | key hprofile h =>
        obtain ⟨p, hp⟩ := hknown hprofile
        rw [hp, unknownCheck?_eq_some_iff.mpr h]
    | sku hprofile hkeys h =>
        obtain ⟨p, hp⟩ := hknown hprofile
        rw [hp, unknownCheck?_eq_none_iff.mpr hkeys, blankSku?_eq_some_iff.mpr h]

/-! ## What it amounts to -/

/-- The policy that a configuration amounts to under a profile.  A check is
switched as the configuration says, and else as the profile says; a SKU has
the recommendation of the configuration, and else the built-in one if the
built-in table is kept. -/
structure Settles (c : Config) (name : String) (policy : Policy) : Prop where
  profile : policy.profile = name
  switched : ∀ (check : Check) (setting : CheckSetting) (on : Bool),
    (check.id, setting) ∈ c.checks.entries → setting.enabled = some on → policy.enables check = on
  preset : ∀ check : Check, (∀ setting, (check.id, setting) ∈ c.checks.entries →
    setting.enabled = none) → (policy.enables check = true ↔ name = "strict" ∨ check = .security)
  listed : ∀ sku recommendation, (sku, recommendation) ∈ c.cost.oversized.entries →
    policy.oversized.get? sku = some recommendation
  unlisted : ∀ sku, (¬ ∃ recommendation, (sku, recommendation) ∈ c.cost.oversized.entries) →
    policy.oversized.get? sku =
      if c.cost.replaceDefaults then none else defaultOversized.get? sku

theorem Settles.unique (h : c.Settles profile policy) (h' : c.Settles profile policy') :
    policy = policy' := by
  have hswitches : ∀ check, policy.enables check = policy'.enables check := by
    intro check
    by_cases hset : ∀ setting, (check.id, setting) ∈ c.checks.entries → setting.enabled = none
    · rw [Bool.eq_iff_iff, h.preset check hset, h'.preset check hset]
    · push Not at hset
      obtain ⟨setting, hmem, hset⟩ := hset
      obtain ⟨on, hon⟩ := Option.ne_none_iff_exists'.mp hset
      rw [h.switched check setting on hmem hon, h'.switched check setting on hmem hon]
  have hoversized : policy.oversized = policy'.oversized := by
    refine Dictionary.ext_get? fun sku => ?_
    by_cases hlisted : ∃ recommendation, (sku, recommendation) ∈ c.cost.oversized.entries
    · obtain ⟨recommendation, hmem⟩ := hlisted
      rw [h.listed _ _ hmem, h'.listed _ _ hmem]
    · rw [h.unlisted _ hlisted, h'.unlisted _ hlisted]
  exact Policy.ext_enables (h.profile.trans h'.profile.symm) hswitches hoversized

theorem settles_of_ofName? {p : Profile} (hp : Profile.ofName? (c.profileName override) = some p) :
    c.Settles (c.profileName override) ⟨p.name, .ofFn (c.enables p), c.oversized⟩ where
  profile := (eq_name_of_ofName? hp).symm
  switched := by
    intro check setting on hmem hon
    rw [Policy.enables, Switches.get_ofFn, enables, Dictionary.mem_entries_iff.mp hmem]
    show setting.enabled.getD _ = on
    rw [hon, Option.getD_some]
  preset := by
    intro check hunset
    have hnone : (c.checks.get? check.id).bind (·.enabled) = none := by
      cases hget : c.checks.get? check.id with
      | none => rfl
      | some setting => exact hunset setting (Dictionary.mem_entries_iff.mpr hget)
    rw [Policy.enables, Switches.get_ofFn, enables, hnone, Option.getD_none, profile_enables_iff,
      eq_name_of_ofName? hp]
  listed := by
    intro sku recommendation hmem
    show c.oversized.get? sku = _
    rw [oversized, Dictionary.get?_overlay, Dictionary.mem_entries_iff.mp hmem, Option.some_or]
  unlisted := by
    intro sku hunlisted
    have hnone : c.cost.oversized.get? sku = none := by
      rw [Option.eq_none_iff_forall_ne_some]
      exact fun recommendation hget =>
        hunlisted ⟨recommendation, Dictionary.mem_entries_iff.mpr hget⟩
    show c.oversized.get? sku = _
    rw [oversized, Dictionary.get?_overlay, hnone, Option.none_or]
    cases c.cost.replaceDefaults <;> rfl

/-- A configuration resolves to the policy that it settles, if it is refused for nothing. -/
theorem resolve_eq_ok_iff_settles : c.resolve override = .ok policy ↔
    (¬ ∃ e, c.Refuses (c.profileName override) e) ∧ c.Settles (c.profileName override) policy := by
  constructor
  · intro h
    refine ⟨?_, ?_⟩
    · rintro ⟨e, hrefuses⟩
      rw [← resolve_eq_error_iff, h] at hrefuses
      cases hrefuses
    · obtain ⟨p, hp, rfl⟩ := eq_of_resolve h
      exact settles_of_ofName? hp
  · rintro ⟨haccepted, hsettles⟩
    cases h : c.resolve override with
    | error e => exact absurd ⟨e, resolve_eq_error_iff.mp h⟩ haccepted
    | ok policy' =>
        obtain ⟨p, hp, rfl⟩ := eq_of_resolve h
        rw [(settles_of_ofName? hp).unique hsettles]

theorem not_blank_of_resolve (h : c.resolve override = .ok policy) :
    ∀ e ∈ policy.oversized.entries, ¬ Blank e.2 := by
  rintro ⟨sku, recommendation⟩ hmem hblank
  obtain ⟨haccepted, hsettles⟩ := resolve_eq_ok_iff_settles.mp h
  rw [Dictionary.mem_entries_iff] at hmem
  by_cases hlisted : ∃ recommendation, (sku, recommendation) ∈ c.cost.oversized.entries
  · obtain ⟨recommendation', hlisted⟩ := hlisted
    rw [hsettles.listed _ _ hlisted] at hmem
    cases hmem
    exact haccepted (exists_refuses_iff.mpr (.inr (.inr ⟨sku, _, hlisted, hblank⟩)))
  · rw [hsettles.unlisted _ hlisted] at hmem
    have hbuiltin : ∀ e ∈ defaultOversized.entries, ¬ Blank e.2 := by
      simp only [← allBlank_iff]
      decide
    split at hmem
    · cases hmem
    · exact hbuiltin _ (Dictionary.mem_entries_iff.mpr hmem) hblank

/-! ## Resolution -/

/-- A policy is what a configuration makes of its profile, entry by entry. -/
structure DraftedAs (c : Config) (override : Option String) (policy : Policy) : Prop where
  draft : c.draft override = .ok policy.draft
  /-- There is a switch for every check, and for nothing else. -/
  keys : ∀ id, (policy.draft.switches.get? id).isSome = true ↔ ∃ check : Check, check.id = id
  switches : ∀ check : Check,
    policy.draft.switches.get? check.id = some (policy.enables check)
  /-- No switch comes in on the way: an entry that is worked through finds the
  one that it sets. -/
  found : ∀ (p : Profile) (before : List (String × CheckSetting)) (e : String × CheckSetting)
    (d d' : Draft), before.foldlM Draft.stepSwitch p.draft = .ok d → d.stepSwitch e = .ok d' →
      (d.switches.get? e.1).isSome = true
  recommendations : ∀ e ∈ policy.oversized.entries, ¬ Blank e.2

theorem draftedAs_of_resolve (h : c.resolve override = .ok policy) :
    c.DraftedAs override policy where
  draft := by
    rw [draft_eq_map_resolve, h]
    rfl
  keys := fun _ => Check.isSome_get?_tableOf
  switches := by
    intro check
    rw [Policy.draft, Check.get?_tableOf, Check.ofId?_id, Option.map_some]
  found := fun _ _ _ _ _ => Profile.isSome_of_step
  recommendations := not_blank_of_resolve h

/-- Resolution is exact.  It fails if the profile is unknown, a key of `checks`
is, or a recommendation is blank, and reports the first of these; and otherwise
it returns the policy that the configuration settles under its profile. -/
theorem resolution_exact (c : Config) (override : Option String) :
    ∃ profile, c.AsksFor override profile ∧
      (∀ e, c.resolve override = .error e ↔ c.Refuses profile e) ∧
      ((∃ e, c.resolve override = .error e) ↔
        ¬ KnownProfile profile ∨ (∃ id, c.UnknownKey id) ∨ ∃ sku, c.BlankSku sku) ∧
      (∀ policy, c.resolve override = .ok policy ↔
        (¬ ∃ e, c.Refuses profile e) ∧ c.Settles profile policy) ∧
      (∀ policy, c.resolve override = .ok policy → c.DraftedAs override policy) := by
  refine ⟨c.profileName override, asksFor_iff.mpr rfl, fun e => resolve_eq_error_iff, ?_,
    fun policy => resolve_eq_ok_iff_settles, fun policy => draftedAs_of_resolve⟩
  simp only [resolve_eq_error_iff]
  exact exists_refuses_iff

/-- A configuration that sets one switch, names another check without setting
its switch, and recommends something else for a SKU of the built-in table. -/
def layeredConfig : Config where
  schema := none
  profile := some "security-only"
  checks := .ofList [("cost.oversized_sku", ⟨some true⟩), ("security.hardening", ⟨none⟩)]
  cost := ⟨false, .ofList [("P1V2", "Use B1 for dev")]⟩

/-- It resolves as it is, and is refused for a profile that is given from outside. -/
theorem resolution_of_layeredConfig :
    layeredConfig.Settles "security-only"
        ⟨"security-only", ⟨false, true, true⟩, layeredConfig.oversized⟩ ∧
      layeredConfig.DraftedAs none
        ⟨"security-only", ⟨false, true, true⟩, layeredConfig.oversized⟩ ∧
      layeredConfig.Refuses "yolo" (.unknownProfile "yolo") := by
  have hresolve : layeredConfig.resolve none =
      .ok ⟨"security-only", ⟨false, true, true⟩, layeredConfig.oversized⟩ := rfl
  obtain ⟨profile, hasks, -, -, hok, hdrafted⟩ := resolution_exact layeredConfig none
  obtain ⟨profile', hasks', herror, -⟩ := resolution_exact layeredConfig (some "yolo")
  obtain rfl : profile = "security-only" := asksFor_iff.mp hasks
  obtain rfl : profile' = "yolo" := asksFor_iff.mp hasks'
  exact ⟨((hok _).mp hresolve).2, hdrafted _ hresolve, (herror _).mp rfl⟩

end Config

end TemplateGate
