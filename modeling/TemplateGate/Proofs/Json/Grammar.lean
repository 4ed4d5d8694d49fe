/-
# `Proofs.Json.Grammar` — the grammar of JSON texts

RFC 8259 as relations between what is written and what it stands for.  They
are stated over characters and know nothing of tokens: `Denotes depth src v`
says that `src` is a way to write the value `v`, without white space around
it and with at most `depth` levels of arrays and objects.

The grammar of the standard leaves three things to whoever reads a text, and
they are settled here as this library does.  An escaped surrogate has to be
one half of a pair (`Spells`); a numeral has to denote a number (`Numeral`);
and of the members with one key the last one counts, in the place of the
first (`Composed.object`).

The second half of the module is about strings.  What can be read between two
quotation marks is what spells a text (`spells_of_stringToken`,
`stringToken_of_spells`), and the printer writes one of the spellings
(`quoted_printString`).
-/
import TemplateGate.Json.Printer
import TemplateGate.Json.Reader

namespace TemplateGate.Json

open Text

namespace Grammar

/-! ## Words -/

/-- White space. -/
def Blank (cs : List Char) : Prop := ∀ c ∈ cs, c ∈ [' ', '\t', '\n', '\r']

/-- The letters that may follow a backslash, with what they stand for. -/
def escapes : List (Char × Char) :=
  [('"', '"'), ('\\', '\\'), ('/', '/'), ('b', '\x08'), ('f', '\x0c'), ('n', '\n'), ('r', '\r'),
    ('t', '\t')]

/-- What is written between the quotation marks of a string, and the
characters it stands for. -/
inductive Spells : List Char → List Char → Prop
  | nil : Spells [] []
  | plain {c : Char} {src text : List Char} : c ≠ '"' → c ≠ '\\' → 0x20 ≤ c.toNat →
      Spells src text → Spells (c :: src) (c :: text)
  | letter {letter c : Char} {src text : List Char} : (letter, c) ∈ escapes →
      Spells src text → Spells ('\\' :: letter :: src) (c :: text)
  | unit {a b c d : Char} {n : Nat} {src text : List Char} : readHex? [a, b, c, d] = some n →
      ¬ (0xD800 ≤ n ∧ n < 0xE000) →
      Spells src text → Spells ('\\' :: 'u' :: a :: b :: c :: d :: src) (Char.ofNat n :: text)
  | pair {a b c d a' b' c' d' : Char} {high low : Nat} {src text : List Char} :
      readHex? [a, b, c, d] = some high → 0xD800 ≤ high → high < 0xDC00 →
      readHex? [a', b', c', d'] = some low → 0xDC00 ≤ low → low < 0xE000 →
      Spells src text →
      Spells ('\\' :: 'u' :: a :: b :: c :: d :: '\\' :: 'u' :: a' :: b' :: c' :: d' :: src)
        (Char.ofNat ((high - 0xD800) * 0x400 + (low - 0xDC00) + 0x10000) :: text)

/-- A string in its quotation marks. -/
inductive Quoted : List Char → String → Prop
  | mk {src text : List Char} : Spells src text →
      Quoted ('"' :: (src ++ ['"'])) (String.ofList text)

/-- One decimal digit or more. -/
def Digits (cs : List Char) : Prop := cs ≠ [] ∧ ∀ c ∈ cs, c.isDigit = true

/-- The sign of a numeral: whether it is negative. -/
inductive Sign : List Char → Bool → Prop
  | none : Sign [] false
  | minus : Sign ['-'] true

/-- The digits before the point, of which the first is a zero only if it is the only one. -/
structure Whole (cs : List Char) : Prop where
  digits : Digits cs
  leading : ∀ d ds, cs ≠ '0' :: d :: ds

/-- The digits behind the point, if there are any. -/
inductive Places : List Char → Option (List Char) → Prop
  | none : Places [] none
  | some {ds : List Char} : Digits ds → Places ('.' :: ds) (some ds)

/-- The exponent of a numeral, if there is one. -/
inductive Exponent : List Char → Option Int → Prop
  | none : Exponent [] none
  | plain {e : Char} {ds : List Char} : e = 'e' ∨ e = 'E' → Digits ds →
      Exponent (e :: ds) (some (readNumeral ds))
  | plus {e : Char} {ds : List Char} : e = 'e' ∨ e = 'E' → Digits ds →
      Exponent (e :: '+' :: ds) (some (readNumeral ds))
  | minus {e : Char} {ds : List Char} : e = 'e' ∨ e = 'E' → Digits ds →
      Exponent (e :: '-' :: ds) (some (-readNumeral ds))

/-- A numeral without its sign, which is given, and the number that it denotes. -/
inductive Unsigned (negative : Bool) : List Char → Number → Prop
  | mk {whole point power : List Char} {places : Option (List Char)} {exponent : Option Int}
      {n : Number} : Whole whole → Places point places → Exponent power exponent →
      numberOf negative whole places exponent = some n →
      Unsigned negative (whole ++ (point ++ power)) n

/-- A numeral. -/
inductive Numeral : List Char → Number → Prop
  | mk {sign src : List Char} {negative : Bool} {n : Number} : Sign sign negative →
      Unsigned negative src n → Numeral (sign ++ src) n

/-- The values that are no arrays and no objects. -/
inductive Scalar : List Char → Value → Prop
  | null : Scalar ['n', 'u', 'l', 'l'] .null
  | yes : Scalar ['t', 'r', 'u', 'e'] (.boolean true)
  | no : Scalar ['f', 'a', 'l', 's', 'e'] (.boolean false)
  | number {src : List Char} {n : Number} : Numeral src n → Scalar src (.number n)
  | string {src : List Char} {s : String} : Quoted src s → Scalar src (.string s)

/-! ## Sentences -/

section

variable {α : Type} (P : List Char → α → Prop)

/-- What is written as given, with white space around it. -/
inductive Padded : List Char → α → Prop
  | mk {before src after : List Char} {a : α} : Blank before → P src a → Blank after →
      Padded (before ++ (src ++ after)) a

/-- One thing or more, each written as given, with commas between them. -/
inductive Listed : List Char → List α → Prop
  | one {src : List Char} {a : α} : P src a → Listed src [a]
  | more {src srcs : List Char} {a : α} {as : List α} : P src a → Listed srcs as →
      Listed (src ++ ',' :: srcs) (a :: as)

/-- What may stand between brackets: a list, or nothing but white space. -/
inductive Enclosed : List Char → List α → Prop
  | blank {src : List Char} : Blank src → Enclosed src []
  | listed {src : List Char} {as : List α} : Listed P src as → Enclosed src as

end

/-- A member of an object whose values are written as given. -/
inductive Member (P : List Char → Value → Prop) : List Char → String × Value → Prop
  | mk {name src : List Char} {k : String} {v : Value} : Padded Quoted name k → P src v →
      Member P (name ++ ':' :: src) (k, v)

/-- A value whose items and members are written as given, but for white space. -/
inductive Composed (P : List Char → Value → Prop) : List Char → Value → Prop
  | scalar {src : List Char} {v : Value} : Scalar src v → Composed P src v
  | array {src : List Char} {vs : List Value} : Enclosed (Padded P) src vs →
      Composed P ('[' :: (src ++ [']'])) (.array vs)
  | object {src : List Char} {ms : Members} : Enclosed (Member (Padded P)) src ms →
      Composed P ('{' :: (src ++ ['}'])) (.object (Members.setAll [] ms))

/-- What is written denotes a value, with at most so many levels of arrays and objects. -/
def Denotes : (depth : Nat) → List Char → Value → Prop
  | 0 => Scalar
  | depth + 1 => Composed (Denotes depth)

end Grammar

/-- A text is one of a value: it is written as the grammar has it, with white
space around it and no deeper than the reader goes. -/
def TextOf (v : Value) (text : String) : Prop :=
  Grammar.Padded (Grammar.Denotes maxDepth) text.toList v

namespace Grammar

/-! ## Strings and tokens -/

theorem isLayout_iff {c : Char} : isLayout c = true ↔ c ∈ [' ', '\t', '\n', '\r'] := by
  simp [isLayout, or_assoc]

theorem blank_nil : Blank [] := fun _ hc => absurd hc List.not_mem_nil

theorem Padded.bare {α : Type} {P : List Char → α → Prop} {src : List Char} {a : α}
    (h : P src a) : Padded P src a := by
  have hpadded := Padded.mk blank_nil h blank_nil
  rwa [List.append_nil, List.nil_append] at hpadded

theorem padded_iff {α : Type} {P : List Char → α → Prop} {cs : List Char} {a : α} :
    Padded P cs a ↔ ∃ before src after, cs = before ++ (src ++ after) ∧ Blank before ∧ P src a ∧
      Blank after := by
  constructor
  · intro h
    cases h with
    | mk hbefore hsrc hafter => exact ⟨_, _, _, rfl, hbefore, hsrc, hafter⟩
  · rintro ⟨before, src, after, rfl, hbefore, hsrc, hafter⟩
    exact .mk hbefore hsrc hafter

theorem Blank.isLayout {cs : List Char} (h : Blank cs) : ∀ c ∈ cs, isLayout c = true :=
  fun c hc => isLayout_iff.mpr (h c hc)

theorem letterEscape?_iff {letter c : Char} :
    letterEscape? letter = some c ↔ (letter, c) ∈ escapes := by
  constructor
  · intro h
    unfold letterEscape? at h
    split at h <;> cases h <;> decide
  · intro h
    simp only [escapes, List.mem_cons, Prod.mk.injEq, List.not_mem_nil, or_false] at h
    rcases h with ⟨rfl, rfl⟩ | ⟨rfl, rfl⟩ | ⟨rfl, rfl⟩ | ⟨rfl, rfl⟩ | ⟨rfl, rfl⟩ | ⟨rfl, rfl⟩ |
      ⟨rfl, rfl⟩ | ⟨rfl, rfl⟩ <;> rfl

/-- What is written between quotation marks, cut into pieces. -/
inductive Pieced : List Char → List Piece → Prop
  | nil : Pieced [] []
  | plain {c : Char} {src : List Char} {ps : List Piece} : c ≠ '"' → c ≠ '\\' → 0x20 ≤ c.toNat →
      Pieced src ps → Pieced (c :: src) (.plain c :: ps)
  | letter {letter c : Char} {src : List Char} {ps : List Piece} : (letter, c) ∈ escapes →
      Pieced src ps → Pieced ('\\' :: letter :: src) (.plain c :: ps)
  | unit {a b c d : Char} {n : Nat} {src : List Char} {ps : List Piece} :
      readHex? [a, b, c, d] = some n →
      Pieced src ps → Pieced ('\\' :: 'u' :: a :: b :: c :: d :: src) (.unit n :: ps)

theorem pieced_of_pieces {cs rest : List Char} : ∀ {ps : List Piece},
    pieces cs = (ps, .closed rest) → ∃ src, cs = src ++ '"' :: rest ∧ Pieced src ps := by
  fun_induction pieces cs with
  | case1 => exact fun h => by cases h
  | case2 rest' =>
      intro ps h
      cases h
      exact ⟨[], rfl, .nil⟩
  | case3 => exact fun h => by cases h
  | case4 a b c d rest' n hn ps e hrest ih =>
      intro ps' h
      cases h
      obtain ⟨src, rfl, hsrc⟩ := ih hrest
      exact ⟨_, rfl, .unit hn hsrc⟩
  | case5 => exact fun h => by cases h
  | case6 => exact fun h => by cases h
  | case7 letter rest' _ _ c hc ps e hrest ih =>
      intro ps' h
      cases h
      obtain ⟨src, rfl, hsrc⟩ := ih hrest
      exact ⟨_, rfl, .letter (letterEscape?_iff.mp hc) hsrc⟩
  | case8 => exact fun h => by cases h
  | case9 => exact fun h => by cases h
  | case10 c rest' hquote hlast _ _ hletter hcontrol ps e hrest ih =>
      intro ps' h
      cases h
      have hescape : c ≠ '\\' := by
        intro heq
        cases rest' with
        | nil => exact hlast heq rfl
        | cons letter rest'' => exact hletter letter rest'' heq rfl
      obtain ⟨src, rfl, hsrc⟩ := ih hrest
      exact ⟨_, rfl, .plain hquote hescape (Nat.le_of_not_lt hcontrol) hsrc⟩

theorem isHighSurrogate_iff {n : Nat} : isHighSurrogate n = true ↔ 0xD800 ≤ n ∧ n < 0xDC00 := by
  simp [isHighSurrogate]

theorem isLowSurrogate_iff {n : Nat} : isLowSurrogate n = true ↔ 0xDC00 ≤ n ∧ n < 0xE000 := by
  simp [isLowSurrogate]

/-- The pieces of a string that can be joined are joined as they are written. -/
theorem spells_of_pieced {ps : List Piece} : ∀ {src text : List Char}, Pieced src ps →
    joinPieces true ps = some text → Spells src text := by
  fun_induction joinPieces true ps with
  | case1 =>
      intro src text hsrc h
      cases hsrc
      cases h
      exact .nil
  | case2 c ps ih =>
      intro src text hsrc h
      obtain ⟨text', htext, rfl⟩ := Option.map_eq_some_iff.mp h
      cases hsrc with
      | plain hquote hescape hcontrol hsrc => exact .plain hquote hescape hcontrol (ih hsrc htext)
      | letter hletter hsrc => exact .letter hletter (ih hsrc htext)
  | case3 n hhigh m ps hlow ih =>
      intro src text hsrc h
      obtain ⟨text', htext, rfl⟩ := Option.map_eq_some_iff.mp h
      obtain ⟨hhigh, hhigh'⟩ := isHighSurrogate_iff.mp hhigh
      obtain ⟨hlow, hlow'⟩ := isLowSurrogate_iff.mp hlow
      cases hsrc with
      | unit hn hsrc =>
          cases hsrc with
          | unit hm hsrc => exact .pair hn hhigh hhigh' hm hlow hlow' (ih hsrc htext)
  | case4 => exact fun _ h => by cases h
  | case5 => exact fun _ h => by cases h
  | case6 => exact fun _ h => by cases h
  | case7 _ _ hclosed => exact absurd rfl hclosed
  | case8 => exact fun _ h => by cases h
  | case9 n ps hhigh hlow ih =>
      intro src text hsrc h
      obtain ⟨text', htext, rfl⟩ := Option.map_eq_some_iff.mp h
      rw [isHighSurrogate_iff] at hhigh
      rw [isLowSurrogate_iff] at hlow
      cases hsrc with
      | unit hn hsrc => exact .unit hn (by omega) (ih hsrc htext)

/-- What spells a text falls into pieces that are joined to it. -/
theorem pieces_of_spells {src text : List Char} (h : Spells src text) (rest : List Char) :
    ∃ ps, pieces (src ++ '"' :: rest) = (ps, .closed rest) ∧ joinPieces true ps = some text := by
  induction h with
  | nil => exact ⟨[], rfl, rfl⟩
  | @plain c src text hquote hescape hcontrol _ ih =>
      obtain ⟨ps, hpieces, hjoin⟩ := ih
      refine ⟨.plain c :: ps, ?_, ?_⟩
      · rw [List.cons_append, pieces, if_neg (Nat.not_lt.mpr hcontrol), hpieces]
        · exact hquote
        all_goals
          intros
          exact absurd ‹c = '\\'› hescape
      · rw [joinPieces, hjoin, Option.map_some]
  | @letter letter c src text hletter _ ih =>
      obtain ⟨ps, hpieces, hjoin⟩ := ih
      refine ⟨.plain c :: ps, ?_, ?_⟩
      · have hread := letterEscape?_iff.mpr hletter
        have hunit : letter ≠ 'u' := by
          rintro rfl
          cases hread
        rw [List.cons_append, List.cons_append, pieces, hread]
        · dsimp only
          rw [hpieces]
        all_goals
          intros
          exact absurd ‹letter = 'u'› hunit
      · rw [joinPieces, hjoin, Option.map_some]
  | @unit a b c d n src text hn hsurrogate _ ih =>
      obtain ⟨ps, hpieces, hjoin⟩ := ih
      refine ⟨.unit n :: ps, ?_, ?_⟩
      · simp only [List.cons_append]
        rw [pieces, hn]
        dsimp only
        rw [hpieces]
      · rw [joinPieces.eq_def]
        dsimp only
        rw [if_neg (mt isHighSurrogate_iff.mp (by omega)),
          if_neg (mt isLowSurrogate_iff.mp (by omega)), hjoin, Option.map_some]
  | @pair a b c d a' b' c' d' high low src text hhigh h₁ h₂ hlow h₃ h₄ _ ih =>
      obtain ⟨ps, hpieces, hjoin⟩ := ih
      refine ⟨.unit high :: .unit low :: ps, ?_, ?_⟩
      · simp only [List.cons_append]
        rw [pieces, hhigh]
        dsimp only
        rw [pieces, hlow]
        dsimp only
        rw [hpieces]
      · rw [joinPieces, if_pos (isHighSurrogate_iff.mpr ⟨h₁, h₂⟩),
          if_pos (isLowSurrogate_iff.mpr ⟨h₃, h₄⟩), hjoin, Option.map_some]

theorem spells_of_stringToken {cs : List Char} {left : Option (List Char)} {s : String}
    {passed : Except Fault Unit} (h : stringToken cs = (.string (.ok s) passed, left)) :
    ∃ src rest, left = some rest ∧ cs = src ++ '"' :: rest ∧ Spells src s.toList := by
  rw [stringToken] at h
  split at h
  · rename_i ps rest' hpieces
    cases hjoin : joinPieces true ps with
    | none =>
        rw [hjoin] at h
        cases h
    | some text =>
        rw [hjoin] at h
        cases h
        obtain ⟨src, hcs, hsrc⟩ := pieced_of_pieces hpieces
        refine ⟨src, rest', rfl, hcs, ?_⟩
        rw [String.toList_ofList]
        exact spells_of_pieced hsrc hjoin
  · cases h

theorem stringToken_of_spells {src text : List Char} (h : Spells src text) (rest : List Char) :
    stringToken (src ++ '"' :: rest) =
      (.string (.ok (String.ofList text)) (.ok ()), some rest) := by
  obtain ⟨ps, hpieces, hjoin⟩ := pieces_of_spells h rest
  rw [stringToken, hpieces]
  dsimp only
  rw [hjoin]
  rfl

/-! ## Printed strings -/

theorem readHex?_hexPair : ∀ n < 32, readHex? ('0' :: '0' :: hexPair n) = some n := by decide

theorem spells_escapeChar (c : Char) {src text : List Char} (h : Spells src text) :
    Spells (escapeChar c ++ src) (c :: text) := by
  rw [escapeChar]
  split
  case isTrue hc => subst hc; exact .letter (by decide) h
  split
  case isTrue hc => subst hc; exact .letter (by decide) h
  split
  case isTrue hc => subst hc; exact .letter (by decide) h
  split
  case isTrue hc => subst hc; exact .letter (by decide) h
  split
  case isTrue hc => subst hc; exact .letter (by decide) h
  split
  case isTrue hc =>
      have hc : c = '\x08' := by rw [← Char.ofNat_toNat c, hc]
      subst hc
      exact .letter (by decide) h
  split
  case isTrue hc =>
      have hc : c = '\x0c' := by rw [← Char.ofNat_toNat c, hc]
      subst hc
      exact .letter (by decide) h
  split
  case isTrue hc =>
      have hspells := Spells.unit (readHex?_hexPair c.toNat hc) (by omega) h
      rwa [Char.ofNat_toNat] at hspells
  case isFalse hquote hescape _ _ _ _ _ hcontrol =>
      exact .plain hquote hescape (Nat.le_of_not_lt hcontrol) h

theorem spells_flatMap_escapeChar (cs : List Char) : Spells (cs.flatMap escapeChar) cs := by
  induction cs with
  | nil => exact .nil
  | cons c cs ih => exact spells_escapeChar c ih

theorem quoted_printString (s : String) : Quoted (printString s) s := by
  have hquoted := Quoted.mk (spells_flatMap_escapeChar s.toList)
  rwa [String.ofList_toList] at hquoted

end Grammar

end TemplateGate.Json
