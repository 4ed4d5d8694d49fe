/-
# `Proofs.Abbreviations.Order` — an abbreviation file is a set of pairs

By the grammar of JSON a file of abbreviations is an object that is written
with members whose values are all texts, also where a later member replaces
an earlier one.  That is what the tokens of `Denotes` say
(`denotes_iff_objectOf`), so such texts are accepted and no others
(`parse_eq_ok_iff_objectOf`).  Of the members with one key the last one counts.

Where no key is repeated, the members may therefore stand in any order, and
since a run sees nothing of the file but the dictionary, it ends in the same
report.  A dictionary is read back from every text of its entries.
-/
import TemplateGate.Gate
import TemplateGate.Proofs.Abbreviations
import TemplateGate.Proofs.Json.Object

namespace TemplateGate.Abbreviations

open Json Text

/-! ## Entries and members -/

/-- The values of all members are texts. -/
def Textual (ms : Members) : Prop := ∀ m ∈ ms, ∃ s, m.2 = .string s

theorem textual_asMembers (entries : List (String × String)) : Textual (asMembers entries) := by
  intro m hm
  obtain ⟨e, -, rfl⟩ := List.mem_map.mp hm
  exact ⟨e.2, rfl⟩

theorem Textual.exists_entries {ms : Members} (h : Textual ms) :
    ∃ entries, ms = asMembers entries := by
  induction ms with
  | nil => exact ⟨[], rfl⟩
  | cons m ms ih =>
      obtain ⟨k, v⟩ := m
      obtain ⟨⟨s, rfl⟩, hms⟩ := List.forall_mem_cons.mp h
      obtain ⟨entries, rfl⟩ := ih hms
      exact ⟨(k, s) :: entries, rfl⟩

theorem isLast_asMembers_iff {entries : List (String × String)} {key s : String} :
    Dictionary.IsLast (asMembers entries) key (.string s) ↔ Dictionary.IsLast entries key s :=
  Dictionary.isLast_map_iff fun _ _ h => Value.string.inj h

/-! ## The grammar -/

section

variable {depth : Nat} {src : List Char} {ms : Members}

theorem quoted_of_denotes {s : String} (h : Grammar.Denotes depth src (.string s)) :
    Grammar.Quoted src s := by
  have hscalar : Grammar.Scalar src (.string s) := by
    cases depth with
    | zero => exact h
    | succ depth =>
        cases h with
        | scalar hscalar => exact hscalar
  cases hscalar with
  | string hquoted => exact hquoted

theorem tokens_of_padded {α : Type} {P : List Char → α → Prop} {a : α} {s : String}
    (hquoted : ∀ {src}, P src a → Grammar.Quoted src s) (h : Grammar.Padded P src a)
    (tail : List Char) : tokens (src ++ tail) = .ofText s :: tokens tail := by
  cases h with
  | mk hbefore hsrc hafter =>
      rw [List.append_assoc, List.append_assoc, tokens_layouts hbefore.isLayout,
        tokens_of_quoted (hquoted hsrc), tokens_layouts hafter.isLayout]

theorem tokens_of_member {k s : String}
    (h : Grammar.Member (Grammar.Padded (Grammar.Denotes depth)) src (k, .string s))
    (tail : List Char) :
    tokens (src ++ tail) = .ofText k :: .colon :: .ofText s :: tokens tail := by
  cases h with
  | @mk name src _ _ hname hsrc =>
      rw [List.append_assoc, List.cons_append, tokens_of_padded id hname, tokens_colon,
        tokens_of_padded quoted_of_denotes hsrc]

/-- Behind a comma the members have the tokens that members behind a comma are written with. -/
theorem tokens_of_listed
    (h : Grammar.Listed (Grammar.Member (Grammar.Padded (Grammar.Denotes depth))) src ms)
    (htextual : Textual ms) (tail : List Char) :
    tokens (',' :: (src ++ tail)) = moreMemberTokens ms ++ tokens tail := by
  induction h with
  | @one src m hsrc =>
      obtain ⟨k, v⟩ := m
      obtain ⟨s, rfl⟩ := htextual _ List.mem_cons_self
      rw [tokens_comma, tokens_of_member hsrc]
      rfl
  | @more src srcs m ms hsrc _ ih =>
      obtain ⟨k, v⟩ := m
      obtain ⟨⟨s, rfl⟩, hms⟩ := List.forall_mem_cons.mp htextual
      rw [List.append_assoc, List.cons_append, tokens_comma, tokens_of_member hsrc, ih hms]
      rfl

theorem tokens_of_enclosed
    (h : Grammar.Enclosed (Grammar.Member (Grammar.Padded (Grammar.Denotes depth))) src ms)
    (htextual : Textual ms) (tail : List Char) :
    tokens (src ++ tail) = memberTokens ms ++ tokens tail := by
  cases h with
  | blank hblank => exact tokens_layouts hblank.isLayout
  | listed hlisted =>
      have hmore := tokens_of_listed hlisted htextual tail
      rw [tokens_comma] at hmore
      cases hlisted with
      | one _ => exact (List.cons.inj hmore).2
      | more _ _ => exact (List.cons.inj hmore).2

end

/-- A text is an object of texts exactly if it is written with them as members. -/
theorem denotes_iff_objectOf {text : String} {entries : List (String × String)} :
    Denotes text entries ↔ ObjectOf (asMembers entries) text := by
  constructor
  · intro h
    refine objectOf_of_tokens (fun m hm => ?_) h
    obtain ⟨s, hs⟩ := textual_asMembers entries m hm
    rw [hs]
    exact ⟨Nat.zero_le _, .string s⟩
  · intro h
    obtain ⟨before, src, after, hcs, hbefore, ⟨hbody⟩, hafter⟩ := Grammar.padded_iff.mp h
    have hmembers := tokens_of_enclosed hbody (textual_asMembers entries)
    have hnil : tokens (after ++ []) = tokens [] := tokens_layouts hafter.isLayout
    rw [List.append_nil, tokens_nil] at hnil
    rw [Denotes, hcs, Value.tokens_object_eq, tokens_layouts hbefore.isLayout, List.cons_append,
      tokens_openObject, List.append_assoc, hmembers, List.singleton_append, tokens_closeObject,
      hnil]

/-! ## The file -/

variable {text text' : String} {ms ms' : Members} {d : Dictionary String}

/-- The texts that are accepted are the objects of texts, and a text has its entries. -/
theorem parse_eq_ok_iff_objectOf :
    parse text = .ok d ↔ ∃ entries, ObjectOf (asMembers entries) text ∧ d = .ofList entries := by
  simp only [parse_eq_ok_iff, denotes_iff_objectOf]

theorem exists_parse_iff :
    (∃ d, parse text = .ok d) ↔ ∃ ms, ObjectOf ms text ∧ Textual ms := by
  constructor
  · rintro ⟨d, h⟩
    obtain ⟨entries, hobject, -⟩ := parse_eq_ok_iff_objectOf.mp h
    exact ⟨asMembers entries, hobject, textual_asMembers entries⟩
  · rintro ⟨ms, hobject, htextual⟩
    obtain ⟨entries, rfl⟩ := htextual.exists_entries
    exact ⟨.ofList entries, parse_eq_ok_iff_objectOf.mpr ⟨entries, hobject, rfl⟩⟩

theorem exists_entries_of_parse (hobject : ObjectOf ms text) (h : parse text = .ok d) :
    ∃ entries, ms = asMembers entries ∧ d = .ofList entries := by
  obtain ⟨entries, hobject', rfl⟩ := parse_eq_ok_iff_objectOf.mp h
  exact ⟨entries, hobject.unique hobject', rfl⟩

theorem get?_eq_some_iff_isLast (hobject : ObjectOf ms text) (h : parse text = .ok d)
    {key s : String} : d.get? key = some s ↔ Dictionary.IsLast ms key (.string s) := by
  obtain ⟨entries, rfl, rfl⟩ := exists_entries_of_parse hobject h
  rw [isLast_asMembers_iff, Dictionary.get?_ofList_eq_some_iff]

theorem keys_asMembers (entries : List (String × String)) :
    (asMembers entries).keys = entries.map (·.1) := by
  rw [Members.keys, asMembers, List.map_map]
  rfl

theorem parse_of_perm (hobject : ObjectOf ms text) (hobject' : ObjectOf ms' text')
    (hkeys : ms.keys.Nodup) (hperm : ms.Perm ms') (h : parse text = .ok d) :
    parse text' = .ok d := by
  obtain ⟨entries, rfl, rfl⟩ := exists_entries_of_parse hobject h
  have htextual : Textual ms' := fun m hm => textual_asMembers entries m (hperm.mem_iff.mpr hm)
  obtain ⟨entries', rfl⟩ := htextual.exists_entries
  rw [keys_asMembers] at hkeys
  have hinj : Function.Injective fun e : String × String => (e.1, Value.string e.2) := by
    rintro ⟨k, s⟩ ⟨k', s'⟩ heq
    cases heq
    rfl
  have hentries : entries.Perm entries' := (List.map_perm_map_iff hinj).mp hperm
  exact parse_eq_ok_iff_objectOf.mpr
    ⟨entries', hobject', Dictionary.ofList_eq_of_perm hkeys hentries⟩

theorem size_of_parse (hobject : ObjectOf ms text) (hkeys : ms.keys.Nodup)
    (h : parse text = .ok d) : d.size = ms.length := by
  obtain ⟨entries, rfl, rfl⟩ := exists_entries_of_parse hobject h
  rw [keys_asMembers] at hkeys
  rw [Dictionary.size, (Dictionary.perm_entries_ofList hkeys).length_eq, asMembers, List.length_map]

/-! ## Runs -/

/-- Inputs with a text for the file of abbreviations. -/
def withText {m : Type → Type} (inputs : Inputs m) (text : String) : Inputs m :=
  { inputs with abbreviations := .ok (some text) }

/-- A run sees nothing of a file that is accepted but its dictionary. -/
theorem runCheck_withText_congr (h : parse text = .ok d) (h' : parse text' = .ok d)
    {m : Type → Type} [Monad m] (host : Host m) (inputs : Inputs m) :
    runCheck host (withText inputs text) = runCheck host (withText inputs text') := by
  have hload : loadAbbreviations (.ok (some text)) = loadAbbreviations (.ok (some text')) := by
    rw [loadAbbreviations, loadAbbreviations, h, h']
  rw [runCheck, runCheck]
  simp only [withText, loadPolicy, hload]

/-! ## Printed dictionaries -/

theorem legible_toValue (d : Dictionary String) : d.toValue.Legible := by
  refine .object fun m hm => ?_
  obtain ⟨s, hs⟩ := textual_asMembers d.entries m hm
  rw [hs]
  exact .string s

theorem objectOf_compact (d : Dictionary String) :
    ObjectOf (asMembers d.entries) d.toValue.compact :=
  denotes_iff_objectOf.mp (Value.tokens_compact (legible_toValue d))

theorem objectOf_pretty (d : Dictionary String) :
    ObjectOf (asMembers d.entries) d.toValue.pretty :=
  denotes_iff_objectOf.mp (Value.tokens_pretty (legible_toValue d))

theorem parse_of_objectOf_entries (h : ObjectOf (asMembers d.entries) text) :
    parse text = .ok d :=
  parse_eq_ok_iff_objectOf.mpr ⟨d.entries, h, d.ofList_entries.symm⟩

/-- An abbreviation file is a set of pairs.  It is accepted exactly if it is an
object of texts, and a key stands for the text of its last member.  Files that
list members with different keys in different orders cannot be told apart by
anything that is evaluated or reported, and a dictionary is read back from
every file of its entries. -/
theorem file_is_set_of_pairs :
    (∀ text, (∃ d, parse text = .ok d) ↔ ∃ ms, ObjectOf ms text ∧ Textual ms) ∧
    (∀ text ms d, ObjectOf ms text → parse text = .ok d →
      ∀ key s, d.get? key = some s ↔ Dictionary.IsLast ms key (.string s)) ∧
    (∀ text text' ms ms', ObjectOf ms text → ObjectOf ms' text' → ms.keys.Nodup → ms.Perm ms' →
      (∀ d, parse text = .ok d ↔ parse text' = .ok d) ∧
      ∀ d d', parse text = .ok d → parse text' = .ok d' →
        (∀ doc policy, evaluate doc d policy = evaluate doc d' policy ∧
          (evaluate doc d policy).summary.abbreviationsLoaded = saturate ms.length) ∧
        ∀ (m : Type → Type) [Monad m] (host : Host m) (inputs : Inputs m),
          runCheck host (withText inputs text) = runCheck host (withText inputs text')) ∧
    (∀ d : Dictionary String, ObjectOf (asMembers d.entries) d.toValue.compact ∧
      ObjectOf (asMembers d.entries) d.toValue.pretty ∧
      ∀ text, ObjectOf (asMembers d.entries) text → parse text = .ok d) := by
  refine ⟨fun text => exists_parse_iff, ?_, ?_, ?_⟩
  · intro text ms d hobject h key s
    exact get?_eq_some_iff_isLast hobject h
  · intro text text' ms ms' hobject hobject' hkeys hperm
    have hkeys' : ms'.keys.Nodup := (hperm.map _).nodup_iff.mp hkeys
    refine ⟨fun d => ⟨parse_of_perm hobject hobject' hkeys hperm,
      parse_of_perm hobject' hobject hkeys' hperm.symm⟩, ?_⟩
    intro d d' h h'
    have hsame : d = d' :=
      Except.ok.inj ((parse_of_perm hobject hobject' hkeys hperm h).symm.trans h')
    subst hsame
    refine ⟨fun doc policy => ⟨rfl, ?_⟩, ?_⟩
    · rw [← size_of_parse hobject hkeys h]
      rfl
    · intro m _ host inputs
      exact runCheck_withText_congr h h' host inputs
  · intro d
    exact ⟨objectOf_compact d, objectOf_pretty d, fun text => parse_of_objectOf_entries⟩

/-- Two members on a line. -/
def onOneLine : String := "\x7b\"stg\":\"storage\",\"kv\":\"keyvault\"\x7d"

/-- The same members the other way round, each on a line of its own. -/
def onTwoLines : String := "\x7b\n  \"kv\": \"keyvault\",\n  \"stg\": \"storage\"\n\x7d\n"

/-- Two members with one key. -/
def twice : String := "\x7b\"kv\":\"key\",\"kv\":\"keyvault\"\x7d"

/-- Both orders are accepted and make no difference to any evaluation or run,
and of two members with one key the last one counts. -/
theorem file_is_set_of_two_pairs :
    (∃ d, parse onOneLine = .ok d ∧ parse onTwoLines = .ok d ∧
      (∀ doc policy, (evaluate doc d policy).summary.abbreviationsLoaded = 2) ∧
      ∀ (m : Type → Type) [Monad m] (host : Host m) (inputs : Inputs m),
        runCheck host (withText inputs onOneLine) = runCheck host (withText inputs onTwoLines)) ∧
    (∃ d, parse twice = .ok d ∧ d.get? "kv" = some "keyvault") ∧
    parse (Dictionary.ofList [("stg", "storage"), ("kv", "keyvault")]).toValue.pretty =
      .ok (.ofList [("stg", "storage"), ("kv", "keyvault")]) := by
  have hone : ObjectOf (asMembers [("stg", "storage"), ("kv", "keyvault")]) onOneLine :=
    denotes_iff_objectOf.mp rfl
  have htwo : ObjectOf (asMembers [("kv", "keyvault"), ("stg", "storage")]) onTwoLines :=
    denotes_iff_objectOf.mp rfl
  have htwice : ObjectOf (asMembers [("kv", "key"), ("kv", "keyvault")]) twice :=
    denotes_iff_objectOf.mp rfl
  obtain ⟨haccepted, hlast, horder, hprinted⟩ := file_is_set_of_pairs
  obtain ⟨hsame, hruns⟩ := horder _ _ _ _ hone htwo (by decide) (.swap _ _ _)
  obtain ⟨d, hd⟩ := (haccepted onOneLine).mpr ⟨_, hone, textual_asMembers _⟩
  have hd' := (hsame d).mp hd
  obtain ⟨hevaluate, hrun⟩ := hruns d d hd hd'
  obtain ⟨e, he⟩ := (haccepted twice).mpr ⟨_, htwice, textual_asMembers _⟩
  refine ⟨⟨d, hd, hd', fun doc policy => (hevaluate doc policy).2, hrun⟩, ⟨e, he, ?_⟩, ?_⟩
  · refine (hlast _ _ _ htwice he "kv" "keyvault").mpr ?_
    exact ⟨[("kv", .string "key")], [], rfl, List.not_mem_nil⟩
  · obtain ⟨-, hpretty, hback⟩ := hprinted (.ofList [("stg", "storage"), ("kv", "keyvault")])
    exact hback _ hpretty

end TemplateGate.Abbreviations
