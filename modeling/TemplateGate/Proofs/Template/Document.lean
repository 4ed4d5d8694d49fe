/-
# `Proofs.Template.Document` — which texts are templates, and what of

A text is no JSON, or it is JSON of the wrong shape, or it is a template;
which of the three is read off the grammar and two levels of the value
(`Document.Misshapen`), and nothing in the entries can make a difference.
What a template describes is one resource for each entry that is an object,
and of these only four fields (`Resource.DescribedBy`).

Whatever else stands in the text is without influence, which is stated on
pairs of texts: if the objects among their entries agree on these fields, one
after the other, the documents are the same.  The order is that of the
entries, so an array and an object with the same values under different names
describe the same document.
-/
import Mathlib.Data.List.Forall2
import TemplateGate.Proofs.Json.Exact
import TemplateGate.Proofs.Origin

namespace TemplateGate

open Json

/-! ## Fields of an entry -/

/-- The text under a key, which is empty if something else stands there or nothing. -/
inductive HoldsText (key : String) (entry : Members) : String → Prop
  | text {s : String} : entry.get? key = some (.string s) → HoldsText key entry s
  | other : (∀ s, entry.get? key ≠ some (.string s)) → HoldsText key entry ""

/-- The object under a key, if one stands there. -/
inductive HoldsObject (key : String) (entry : Members) : Option Members → Prop
  | object {members : Members} : entry.get? key = some (.object members) →
      HoldsObject key entry (some members)
  | other : (∀ members, entry.get? key ≠ some (.object members)) → HoldsObject key entry none

/-- A resource is the one that an entry describes. -/
structure Resource.DescribedBy (entry : Members) (r : Resource) : Prop where
  name : HoldsText "name" entry r.name
  type : HoldsText "type" entry r.type
  properties : ∃ found, HoldsObject "properties" entry found ∧ r.properties = found.getD []
  sku : HoldsObject "sku" entry r.sku

/-- Entries agree on the fields that a resource is made of. -/
def Resource.Agree (entry entry' : Members) : Prop :=
  ∀ key ∈ ["name", "type", "properties", "sku"], entry.get? key = entry'.get? key

theorem holdsText_iff {key : String} {entry : Members} {s : String} :
    HoldsText key entry s ↔ s = textAt key entry := by
  rw [textAt]
  constructor
  · intro h
    cases h with
    | text h =>
        rw [bind_text?_eq_some_iff.mpr h]
        rfl
    | other hno =>
        have hnone : (entry.get? key).bind Value.text? = none :=
          Option.eq_none_iff_forall_ne_some.mpr fun s hs => hno s (bind_text?_eq_some_iff.mp hs)
        rw [hnone]
        rfl
  · rintro rfl
    cases h : (entry.get? key).bind Value.text? with
    | some s => exact .text (bind_text?_eq_some_iff.mp h)
    | none =>
        refine .other fun s hs => ?_
        rw [bind_text?_eq_some_iff.mpr hs] at h
        cases h

theorem holdsObject_iff {key : String} {entry : Members} {found : Option Members} :
    HoldsObject key entry found ↔ found = (entry.get? key).bind Value.members? := by
  constructor
  · intro h
    cases h with
    | object h => exact (bind_members?_eq_some_iff.mpr h).symm
    | other hno =>
        refine (Option.eq_none_iff_forall_ne_some.mpr fun members hm => ?_).symm
        exact hno members (bind_members?_eq_some_iff.mp hm)
  · rintro rfl
    cases h : (entry.get? key).bind Value.members? with
    | some members => exact .object (bind_members?_eq_some_iff.mp h)
    | none =>
        refine .other fun members hm => ?_
        rw [bind_members?_eq_some_iff.mpr hm] at h
        cases h

namespace Resource

theorem describedBy_iff {entry : Members} {r : Resource} :
    r.DescribedBy entry ↔ ofMembers entry = r := by
  constructor
  · rintro ⟨hname, htype, ⟨found, hfound, hproperties⟩, hsku⟩
    obtain ⟨name, type, properties, sku⟩ := r
    cases holdsText_iff.mp hname
    cases holdsText_iff.mp htype
    cases holdsObject_iff.mp hfound
    cases holdsObject_iff.mp hsku
    cases hproperties
    rfl
  · rintro rfl
    exact ⟨holdsText_iff.mpr rfl, holdsText_iff.mpr rfl, ⟨_, holdsObject_iff.mpr rfl, rfl⟩,
      holdsObject_iff.mpr rfl⟩

theorem Agree.ofMembers {entry entry' : Members} (h : Agree entry entry') :
    ofMembers entry = ofMembers entry' := by
  have hname := h "name" (by simp)
  have htype := h "type" (by simp)
  have hproperties := h "properties" (by simp)
  have hsku := h "sku" (by simp)
  simp only [Resource.ofMembers, textAt, hname, htype, hproperties, hsku]

end Resource

/-! ## Entries of a template -/

namespace Document

/-- A value is not of the shape of a template: it is no object, or what it has
under `resources` is neither an array nor an object, nor `null`. -/
inductive Misshapen : Value → Prop
  | root {v : Value} : (∀ members, v ≠ .object members) → Misshapen v
  | resources {root : Members} {v : Value} : root.get? "resources" = some v → v ≠ .null →
      (∀ items, v ≠ .array items) → (∀ members, v ≠ .object members) → Misshapen (.object root)

variable {root root' : Members} {entries entries' : List Value} {doc : Document}

theorem entries?_eq_some_iff : entries? root = some entries ↔ Lists root entries := by
  constructor
  · exact lists_of_entries?
  · intro h
    cases h with
    | missing h => simp [entries?, h]
    | null h => simp [entries?, h]
    | items h => simp [entries?, h]
    | members h => simp [entries?, h]

theorem entries?_eq_none_iff : entries? root = none ↔ Misshapen (.object root) := by
  rw [entries?]
  constructor
  · intro h
    split at h
    · cases h
    · cases h
    · cases h
    · cases h
    · rename_i v hnull hitems hmembers hv
      exact .resources hv hnull hitems hmembers
  · intro h
    cases h with
    | root hno => exact absurd rfl (hno root)
    | @resources _ v hv hnull hitems hmembers =>
        rw [hv]
        cases v with
        | null => exact absurd rfl hnull
        | array items => exact absurd rfl (hitems items)
        | object members => exact absurd rfl (hmembers members)
        | _ => rfl

theorem ofEntries_eq_map (entries : List Value) :
    ofEntries entries = (entries.filterMap Value.members?).map Resource.ofMembers := by
  rw [List.map_filterMap]
  rfl

theorem ofEntries_eq_iff : ofEntries entries = doc ↔
    List.Forall₂ (fun entry r => r.DescribedBy entry) (entries.filterMap Value.members?) doc := by
  simp only [Resource.describedBy_iff]
  rw [ofEntries_eq_map, ← List.forall₂_map_left_iff, List.forall₂_eq_eq_eq]

/-- Other fields of the entries and entries that are no objects make no difference. -/
theorem ofEntries_congr (h : List.Forall₂ Resource.Agree (entries.filterMap Value.members?)
    (entries'.filterMap Value.members?)) : ofEntries entries = ofEntries entries' := by
  rw [ofEntries_eq_map, ofEntries_eq_map, ← List.forall₂_eq_eq_eq, List.forall₂_map_left_iff,
    List.forall₂_map_right_iff]
  exact h.imp fun _ _ hagree => hagree.ofMembers

/-! ## Texts -/

variable {text text' : String}

theorem parse_of_textOf {v : Value} (h : TextOf v text) : parse text = ofValue v := by
  rw [parse, parse_eq_ok_iff.mpr h]

theorem parse_of_not_textOf (h : ¬ ∃ v, TextOf v text) :
    ∃ fault, parse text = .error (.invalidJson fault) := by
  rw [parse]
  cases hparse : Json.parse text with
  | ok v => exact absurd ⟨v, parse_eq_ok_iff.mp hparse⟩ h
  | error fault => exact ⟨fault, rfl⟩

theorem ofValue_of_misshapen {v : Value} (h : Misshapen v) :
    ∃ what, ofValue v = .error (.malformed what) := by
  cases v with
  | object root =>
      rw [ofValue, entries?_eq_none_iff.mpr h]
      exact ⟨_, rfl⟩
  | _ => exact ⟨_, rfl⟩

theorem ofValue_of_lists (h : Lists root entries) :
    ofValue (.object root) = .ok (ofEntries entries) := by
  rw [ofValue, entries?_eq_some_iff.mpr h]

theorem exists_lists_of_not_misshapen {v : Value} (h : ¬ Misshapen v) :
    ∃ root entries, v = .object root ∧ Lists root entries := by
  cases v with
  | object root =>
      obtain ⟨entries, hentries⟩ :=
        Option.ne_none_iff_exists'.mp (mt entries?_eq_none_iff.mp h)
      exact ⟨root, entries, rfl, entries?_eq_some_iff.mp hentries⟩
  | _ => exact absurd (.root nofun) h

/-- A text is no JSON, or it is malformed, or it is a template, and it is
parsed accordingly. -/
theorem parse_cases (text : String) :
    ((¬ ∃ v, TextOf v text) ∧ ∃ fault, parse text = .error (.invalidJson fault)) ∨
    (∃ v, TextOf v text ∧ Misshapen v ∧ ∃ what, parse text = .error (.malformed what)) ∨
    ∃ root entries, TextOf (.object root) text ∧ Lists root entries ∧
      parse text = .ok (ofEntries entries) := by
  by_cases htext : ∃ v, TextOf v text
  · obtain ⟨v, hv⟩ := htext
    by_cases hshape : Misshapen v
    · obtain ⟨what, hwhat⟩ := ofValue_of_misshapen hshape
      exact .inr (.inl ⟨v, hv, hshape, what, (parse_of_textOf hv).trans hwhat⟩)
    · obtain ⟨root, entries, rfl, hlists⟩ := exists_lists_of_not_misshapen hshape
      have hparse := (parse_of_textOf hv).trans (ofValue_of_lists hlists)
      exact .inr (.inr ⟨root, entries, hv, hlists, hparse⟩)
  · exact .inl ⟨htext, parse_of_not_textOf htext⟩

/-- What becomes of a text, by what it is a text of. -/
structure Parsed (text : String) : Prop where
  /-- It is no JSON exactly if it is a text of no value. -/
  invalid : (∃ fault, parse text = .error (.invalidJson fault)) ↔ ¬ ∃ v, TextOf v text
  /-- It is malformed exactly if it is a text of a misshapen value. -/
  malformed : (∃ what, parse text = .error (.malformed what)) ↔ ∃ v, TextOf v text ∧ Misshapen v
  /-- It is a template if its value has the shape of one, whatever the entries are. -/
  succeeds : ∀ v, TextOf v text → ¬ Misshapen v → ∃ doc, parse text = .ok doc
  /-- Its document is what the objects among the entries describe, in their order. -/
  describes : ∀ doc, parse text = .ok doc ↔
    ∃ root entries, TextOf (.object root) text ∧ Lists root entries ∧
      List.Forall₂ (fun entry r => r.DescribedBy entry) (entries.filterMap Value.members?) doc

theorem parsed (text : String) : Parsed text where
  invalid := by
    refine ⟨?_, parse_of_not_textOf⟩
    rintro ⟨fault, hfault⟩
    rcases parse_cases text with ⟨hno, -⟩ | ⟨_, _, _, _, hparse⟩ | ⟨_, _, _, _, hparse⟩
    · exact hno
    · cases hparse.symm.trans hfault
    · cases hparse.symm.trans hfault
  malformed := by
    constructor
    · rintro ⟨what, hwhat⟩
      rcases parse_cases text with ⟨_, _, hparse⟩ | ⟨v, hv, hshape, _⟩ | ⟨_, _, _, _, hparse⟩
      · cases hparse.symm.trans hwhat
      · exact ⟨v, hv, hshape⟩
      · cases hparse.symm.trans hwhat
    · rintro ⟨v, hv, hshape⟩
      rw [parse_of_textOf hv]
      exact ofValue_of_misshapen hshape
  succeeds := by
    intro v hv hshape
    obtain ⟨root, entries, rfl, hlists⟩ := exists_lists_of_not_misshapen hshape
    exact ⟨_, (parse_of_textOf hv).trans (ofValue_of_lists hlists)⟩
  describes := by
    intro doc
    constructor
    · intro hdoc
      rcases parse_cases text with ⟨_, _, hparse⟩ | ⟨_, _, _, _, hparse⟩ |
        ⟨root, entries, hroot, hlists, hparse⟩
      · cases hparse.symm.trans hdoc
      · cases hparse.symm.trans hdoc
      · have hdoc' : ofEntries entries = doc := Except.ok.inj (hparse.symm.trans hdoc)
        exact ⟨root, entries, hroot, hlists, ofEntries_eq_iff.mp hdoc'⟩
    · rintro ⟨root, entries, hroot, hlists, hentries⟩
      rw [parse_of_textOf hroot, ofValue_of_lists hlists, ofEntries_eq_iff.mpr hentries]

/-! ## What has no influence -/

theorem ofValue_congr (h : root.get? "resources" = root'.get? "resources") :
    ofValue (.object root) = ofValue (.object root') := by
  rw [ofValue, ofValue, entries?, entries?, h]

/-- What an entry is written as, two levels below the root. -/
def EntrySource : List Char → Value → Prop :=
  Grammar.Padded (Grammar.Denotes (maxDepth - 2))

/-- The text of an object that has nothing but `resources`, which are written as given. -/
def textWith (resources : List Char) : String :=
  String.ofList ('{' :: (printString "resources" ++ ':' :: resources ++ ['}']))

theorem textOf_textWith {src : List Char} {v : Value} (h : Grammar.Denotes (maxDepth - 1) src v) :
    TextOf (.object [("resources", v)]) (textWith src) := by
  have hmember : Grammar.Member (Grammar.Padded (Grammar.Denotes (maxDepth - 1)))
      (printString "resources" ++ ':' :: src) ("resources", v) :=
    .mk (.bare (Grammar.quoted_printString "resources")) (.bare h)
  have hroot : Grammar.Denotes maxDepth
      ('{' :: (printString "resources" ++ ':' :: src ++ ['}'])) (.object [("resources", v)]) :=
    .object (.listed (.one hmember))
  rw [TextOf, textWith, String.toList_ofList]
  exact .bare hroot

/-- Symbolic names are without influence, as long as they are different: an
object is parsed like the array of its values. -/
theorem parse_textWith_object {named : Members} {object array : List Char}
    (hnames : named.keys.Nodup)
    (hobject : Grammar.Enclosed (Grammar.Member EntrySource) object named)
    (harray : Grammar.Enclosed EntrySource array (named.map (·.2))) :
    parse (textWith ('{' :: (object ++ ['}']))) = parse (textWith ('[' :: (array ++ [']']))) := by
  have hset : Members.setAll [] named = named :=
    Members.setAll_append_of_nodup (List.nil_append _ ▸ hnames)
  have hobject' : TextOf (.object [("resources", .object named)])
      (textWith ('{' :: (object ++ ['}']))) := by
    refine textOf_textWith ?_
    have h : Grammar.Denotes (maxDepth - 1) ('{' :: (object ++ ['}'])) _ := .object hobject
    rwa [hset] at h
  have harray' : TextOf (.object [("resources", .array (named.map (·.2)))])
      (textWith ('[' :: (array ++ [']']))) :=
    textOf_textWith (.array harray)
  rw [parse_of_textOf hobject', parse_of_textOf harray', ofValue_of_lists (.members rfl),
    ofValue_of_lists (.items rfl)]

/-! ## The document of a text -/

/-- Every text is parsed as its value demands, and by nothing else in it: not by
the other members of the root, nor by the other fields of the entries or the
entries that are no objects, nor by the names that the entries have. -/
theorem parse_exact :
    (∀ text : String, Parsed text) ∧
    (∀ (text text' : String) (root root' : Members), TextOf (.object root) text →
      TextOf (.object root') text' → root.get? "resources" = root'.get? "resources" →
        parse text = parse text') ∧
    (∀ (text text' : String) (root root' : Members) (entries entries' : List Value),
      TextOf (.object root) text → TextOf (.object root') text' →
      Lists root entries → Lists root' entries' →
      List.Forall₂ Resource.Agree (entries.filterMap Value.members?)
        (entries'.filterMap Value.members?) → parse text = parse text') ∧
    ∀ (named : Members) (object array : List Char), named.keys.Nodup →
      Grammar.Enclosed (Grammar.Member EntrySource) object named →
      Grammar.Enclosed EntrySource array (named.map (·.2)) →
        parse (textWith ('{' :: (object ++ ['}']))) =
          parse (textWith ('[' :: (array ++ [']']))) := by
  refine ⟨parsed, ?_, ?_, fun _ _ _ => parse_textWith_object⟩
  · intro text text' root root' htext htext' hresources
    rw [parse_of_textOf htext, parse_of_textOf htext', ofValue_congr hresources]
  · intro text text' root root' entries entries' htext htext' hlists hlists' hagree
    rw [parse_of_textOf htext, parse_of_textOf htext', ofValue_of_lists hlists,
      ofValue_of_lists hlists', ofEntries_congr hagree]

/-- What an entry with nothing but a name is written as. -/
def namedSource (name : String) : List Char :=
  '{' :: (printString "name" ++ ':' :: printString name ++ ['}'])

theorem denotes_namedSource (name : String) {depth : Nat} :
    Grammar.Denotes (depth + 1) (namedSource name) (.object [("name", .string name)]) := by
  have hvalue : Grammar.Denotes depth (printString name) (.string name) := by
    cases depth with
    | zero => exact .string (Grammar.quoted_printString name)
    | succ depth => exact .scalar (.string (Grammar.quoted_printString name))
  exact .object (.listed (.one (.mk (.bare (Grammar.quoted_printString "name")) (.bare hvalue))))

/-- Three entries under symbolic names, of which the second is no object. -/
def symbolicEntries : Members := [("zeta", .object [("name", .string "first")]),
  ("alpha", .null), ("mid", .object [("name", .string "third")])]

/-- Under their symbolic names and in a list, the three entries are one
document, which holds the first and the third of them. -/
theorem parse_exact_of_symbolicEntries :
    symbolicEntries.keys.Nodup ∧
    parse (textWith ('{' :: (printString "zeta" ++ ':' :: namedSource "first" ++ ',' ::
        (printString "alpha" ++ ':' :: "null".toList ++ ',' ::
          (printString "mid" ++ ':' :: namedSource "third")) ++ ['}']))) =
      parse (textWith ('[' :: (namedSource "first" ++ ',' :: ("null".toList ++ ',' ::
        namedSource "third") ++ [']']))) ∧
    parse (textWith ('[' :: (namedSource "first" ++ ',' :: ("null".toList ++ ',' ::
        namedSource "third") ++ [']']))) =
      .ok [⟨"first", "", [], none⟩, ⟨"third", "", [], none⟩] := by
  have hnames : symbolicEntries.keys.Nodup := by decide
  have hnull : Grammar.Denotes (maxDepth - 2) "null".toList .null := .scalar .null
  have hobject : Grammar.Enclosed (Grammar.Member EntrySource)
      (printString "zeta" ++ ':' :: namedSource "first" ++ ',' ::
        (printString "alpha" ++ ':' :: "null".toList ++ ',' ::
          (printString "mid" ++ ':' :: namedSource "third"))) symbolicEntries :=
    .listed (.more (.mk (.bare (Grammar.quoted_printString _)) (.bare (denotes_namedSource _)))
      (.more (.mk (.bare (Grammar.quoted_printString _)) (.bare hnull))
        (.one (.mk (.bare (Grammar.quoted_printString _)) (.bare (denotes_namedSource _))))))
  have harray : Grammar.Enclosed EntrySource
      (namedSource "first" ++ ',' :: ("null".toList ++ ',' :: namedSource "third"))
      (symbolicEntries.map (·.2)) :=
    .listed (.more (.bare (denotes_namedSource _)) (.more (.bare hnull)
      (.one (.bare (denotes_namedSource _)))))
  refine ⟨hnames, parse_exact.2.2.2 _ _ _ hnames hobject harray, ?_⟩
  refine ((parse_exact.1 _).describes _).mpr ⟨_, _, textOf_textWith (.array harray), .items rfl, ?_⟩
  exact ofEntries_eq_iff.mp rfl

end Document

end TemplateGate
