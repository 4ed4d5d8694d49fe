/-
# `Proofs.Abbreviations` — which texts are abbreviation files

An abbreviation file is an object of texts.  `Denotes` says so of the
tokens, without a reader: they are those that an object is written with
whose values are all texts.  Its keys stand in any order, and they may be
repeated.

The reader accepts the texts that denote entries, and no others
(`parse_eq_ok_iff`).  It returns the dictionary of the entries, in which a
later one takes the place of an earlier one with the same key.
-/
import TemplateGate.Gate
import TemplateGate.Proofs.Dictionary
import TemplateGate.Proofs.Json.Shape
import TemplateGate.Text.Basic

namespace TemplateGate.Abbreviations

open Json Text

/-- Entries as the members of an object. -/
def asMembers (entries : List (String × String)) : Members :=
  entries.map fun e => (e.1, .string e.2)

/-- A text is an object of texts with the given entries. -/
def Denotes (text : String) (entries : List (String × String)) : Prop :=
  tokens text.toList = (Value.object (asMembers entries)).tokens

/-! ## From the tokens to the entries -/

variable {depth : Nat} {acc ms : Members} {k : String} {ts rest : List Token}

/-- Every string among the tokens that can be read can be passed over, as in a text. -/
def Passable (ts : List Token) : Prop :=
  ∀ s passed, Token.string (.ok s) passed ∈ ts → passed = .ok ()

theorem Passable.ofText {s : String} {passed : Except Fault Unit}
    (h : Passable (.string (.ok s) passed :: ts)) : Token.string (.ok s) passed = .ofText s := by
  rw [h s passed List.mem_cons_self, Token.ofText]

theorem Passable.tail {t : Token} (h : Passable (t :: ts)) : Passable ts :=
  fun s passed hmem => h s passed (List.mem_cons_of_mem t hmem)

theorem eq_of_setMember (h : setMember (Shape.read depth .text) acc k ts = .ok (ms, rest)) :
    ∃ s passed, ts = .colon :: .string (.ok s) passed :: rest ∧ ms = acc.set k (.string s) := by
  obtain ⟨ts', hcolon, h⟩ := bind_eq_ok_iff.mp h
  obtain ⟨⟨v, rest'⟩, hread, h⟩ := bind_eq_ok_iff.mp h
  cases h
  unfold afterColon at hcolon
  split at hcolon
  · cases hcolon
    unfold Shape.read at hread
    split at hread
    · rename_i content passed rest'' _
      cases content with
      | error fault => cases hread
      | ok s =>
          cases hread
          exact ⟨s, passed, rfl, rfl⟩
    · cases hread
  · cases hcolon

theorem eq_of_member (hts : Passable ts) {ts' : List Token} (hkey : key ts = .ok (k, ts'))
    (hmember : setMember (Shape.read depth .text) acc k ts' = .ok (ms, rest)) :
    ∃ s, ts = .ofText k :: .colon :: .ofText s :: rest ∧ ms = acc.set k (.string s) ∧
      Passable rest := by
  obtain ⟨passed, rfl⟩ := eq_of_key hkey
  obtain ⟨s, passed', rfl, rfl⟩ := eq_of_setMember hmember
  refine ⟨s, ?_, rfl, hts.tail.tail.tail⟩
  rw [hts.ofText, hts.tail.tail.ofText]

theorem eq_of_moreMembers {fuel : Nat} :
    ∀ {acc ms : Members} {ts rest : List Token}, Passable ts →
      moreMembers (setMember (Shape.read depth .text)) fuel acc ts = .ok (ms, rest) →
        ∃ entries, ts = moreMemberTokens (asMembers entries) ++ .closeObject :: rest ∧
          ms = acc.setAll (asMembers entries) := by
  intro acc ms ts
  fun_induction moreMembers (setMember (Shape.read depth .text)) fuel acc ts with
  | case1 =>
      intro rest _ h
      cases h
      exact ⟨[], rfl, rfl⟩
  | case2 fuel acc ts ih =>
      intro rest hts h
      obtain ⟨⟨k, ts'⟩, hkey, h⟩ := bind_eq_ok_iff.mp h
      obtain ⟨⟨acc', ts''⟩, hmember, h⟩ := bind_eq_ok_iff.mp h
      obtain ⟨s, rfl, rfl, hrest⟩ := eq_of_member hts.tail hkey hmember
      obtain ⟨entries, rfl, rfl⟩ := ih _ _ hrest h
      exact ⟨(k, s) :: entries, rfl, rfl⟩
  | case3 =>
      intro rest _ h
      cases h

theorem eq_of_members (hts : Passable ts)
    (h : members (setMember (Shape.read depth .text)) [] ts = .ok (ms, rest)) :
    ∃ entries, ts = memberTokens (asMembers entries) ++ .closeObject :: rest ∧
      ms = Members.setAll [] (asMembers entries) := by
  unfold members at h
  split at h
  · cases h
    exact ⟨[], rfl, rfl⟩
  · obtain ⟨⟨k, ts'⟩, hkey, h⟩ := bind_eq_ok_iff.mp h
    obtain ⟨⟨acc, ts''⟩, hmember, h⟩ := bind_eq_ok_iff.mp h
    obtain ⟨s, rfl, rfl, hrest⟩ := eq_of_member hts hkey hmember
    obtain ⟨entries, rfl, rfl⟩ := eq_of_moreMembers hrest h
    exact ⟨(k, s) :: entries, rfl, rfl⟩

theorem eq_of_read {v : Value} (hts : Passable ts)
    (h : (Shape.dictionary .text).read (depth + 1) ts = .ok (v, rest)) :
    ∃ entries, ts = (Value.object (asMembers entries)).tokens ++ rest ∧
      v = .object (Members.setAll [] (asMembers entries)) := by
  unfold Shape.read at h
  split at h
  · obtain ⟨⟨ms, rest'⟩, hmembers, h⟩ := bind_eq_ok_iff.mp h
    cases h
    obtain ⟨entries, rfl, rfl⟩ := eq_of_members hts.tail hmembers
    exact ⟨entries, (Value.tokens_object _ _).symm, rfl⟩
  · cases h
  · cases h

/-! ## From the entries to the members -/

/-- Entries are read in any order, one set after the other. -/
theorem runs_asMembers (entries : List (String × String)) : ∀ acc : Members,
    Runs (setMember (Shape.read depth .text)) acc (asMembers entries)
      (acc.setAll (asMembers entries)) := by
  induction entries with
  | nil => exact fun _ => .nil
  | cons e entries ih =>
      intro acc
      have hread : ReadsAs (Shape.read depth .text) (.string e.2) (.string e.2) :=
        Shape.agrees_of_isFlat rfl (Nat.zero_le depth) (.string e.2) rfl
      refine .cons (fun rest => ?_) (ih _)
      exact bind_eq_ok_iff.mpr ⟨_, rfl, bind_eq_ok_iff.mpr ⟨_, hread rest, rfl⟩⟩

/-! ## The dictionary -/

/-- The texts of members, as `ofNormal` takes them. -/
def texts (ms : Members) : List (String × String) := ms.map fun m => (m.1, m.2.text?.getD "")

theorem lookup_texts (key : String) (ms : Members) :
    Dictionary.lookup key (texts ms) = (ms.get? key).map fun v => v.text?.getD "" := by
  induction ms with
  | nil => rfl
  | cons m ms ih =>
      rw [texts, List.map_cons, Dictionary.lookup, Members.get?]
      split
      · rfl
      · exact ih

theorem get?_ofList_texts {ms : Members} (hkeys : ms.keys.Nodup) (key : String) :
    (Dictionary.ofList (texts ms)).get? key = (ms.get? key).map fun v => v.text?.getD "" := by
  have hnodup : ((texts ms).map (·.1)).Nodup := by
    rw [texts, List.map_map]
    exact hkeys
  rw [Dictionary.ofList, Dictionary.get?_foldl_insert hnodup, Dictionary.get?_empty, Option.or_none,
    lookup_texts]

theorem ofList_texts_set {ms : Members} (hkeys : ms.keys.Nodup) (k s : String) :
    Dictionary.ofList (texts (ms.set k (.string s))) =
      (Dictionary.ofList (texts ms)).insert k s := by
  refine Dictionary.ext_get? fun key => ?_
  rw [get?_ofList_texts (Members.nodup_keys_set hkeys), Dictionary.get?_insert,
    get?_ofList_texts hkeys, Members.get?_set]
  split <;> rfl

theorem ofList_texts_setAll (entries : List (String × String)) :
    ∀ {ms : Members}, ms.keys.Nodup →
      Dictionary.ofList (texts (ms.setAll (asMembers entries))) =
        entries.foldl (fun d e => d.insert e.1 e.2) (Dictionary.ofList (texts ms)) := by
  induction entries with
  | nil => exact fun _ => rfl
  | cons e entries ih =>
      intro ms hkeys
      rw [List.foldl_cons, ← ofList_texts_set hkeys]
      exact ih (Members.nodup_keys_set hkeys)

theorem ofNormal_setAll (entries : List (String × String)) :
    ofNormal (.object (Members.setAll [] (asMembers entries))) = .ofList entries :=
  ofList_texts_setAll entries List.nodup_nil

/-! ## The file -/

/-- A text is accepted exactly if it is an object of texts, and has the entries of that. -/
theorem parse_eq_ok_iff {text : String} {d : Dictionary String} :
    parse text = .ok d ↔ ∃ entries, Denotes text entries ∧ d = .ofList entries := by
  have hsplit : parse text = .ok d ↔ ∃ v, shape.parse text = .ok v ∧ ofNormal v = d := by
    rw [parse]
    cases shape.parse text <;> simp [Except.map]
  rw [hsplit]
  constructor
  · rintro ⟨v, hparse, rfl⟩
    obtain ⟨entries, htokens, rfl⟩ :=
      eq_of_read (fun _ _ => passed_of_mem_tokens) (finish_eq_ok_iff.mp hparse)
    rw [List.append_nil] at htokens
    exact ⟨entries, htokens, ofNormal_setAll entries⟩
  · rintro ⟨entries, hdenotes, rfl⟩
    refine ⟨.object (Members.setAll [] (asMembers entries)), ?_, ofNormal_setAll entries⟩
    refine finish_eq_ok_iff.mpr ?_
    rw [hdenotes, Value.tokens_object_eq]
    exact bind_eq_ok_iff.mpr ⟨_, members_tokens (runs_asMembers entries []) [], rfl⟩

/-! ## Blank texts -/

theorem isBlank_eq_false_of_isDigit {c : Char} (h : c.isDigit = true) : isBlank c = false := by
  have hrange : 48 ≤ c.toNat ∧ c.toNat ≤ 57 := by
    rw [Char.isDigit, Bool.and_eq_true, decide_eq_true_eq, decide_eq_true_eq] at h
    exact h
  simp only [isBlank, Bool.or_eq_false_iff, Bool.and_eq_false_iff, decide_eq_false_iff_not,
    beq_eq_false_iff_ne]
  omega

theorem tokenAt_blank {c : Char} (hblank : isBlank c = true) (hlayout : isLayout c = false)
    (cs : List Char) : tokenAt c cs = (.broken .malformed .malformed, none) := by
  have hdigit : c.isDigit = false := by
    rw [Bool.eq_false_iff]
    intro hdigit
    rw [isBlank_eq_false_of_isDigit hdigit] at hblank
    cases hblank
  unfold tokenAt
  split
  case h_12 => rw [hdigit, if_neg Bool.false_ne_true]
  all_goals cases hblank

theorem tokens_blank {cs : List Char} (h : ∀ c ∈ cs, isBlank c = true) :
    tokens cs = [] ∨ tokens cs = [.broken .malformed .malformed] := by
  induction cs with
  | nil => exact .inl rfl
  | cons c cs ih =>
      cases hlayout : isLayout c with
      | true =>
          rw [tokens_layout hlayout]
          exact ih fun d hd => h d (List.mem_cons_of_mem c hd)
      | false =>
          exact .inr (tokens_cons_none hlayout (tokenAt_blank (h c List.mem_cons_self) hlayout cs))

theorem not_denotes_of_blank {text : String} {entries : List (String × String)}
    (h : ∀ c ∈ text.toList, isBlank c = true) : ¬ Denotes text entries := by
  intro hdenotes
  obtain ⟨t, ts, htokens, hbegins⟩ := (Value.object (asMembers entries)).tokens_eq_cons
  rw [Denotes, htokens] at hdenotes
  rcases tokens_blank h with hnil | hbroken
  · rw [hnil] at hdenotes
    cases hdenotes
  · rw [hbroken] at hdenotes
    cases hdenotes
    cases hbegins

end TemplateGate.Abbreviations
