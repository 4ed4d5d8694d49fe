/-
# `Proofs.Text.Utf8` — texts and their bytes

Two facts about the encoding.  Bytes are decoded to a text exactly if they
are the bytes of that text (`decode_eq_some_iff`), so a text that is written
to a file is the text that is read from it, and bytes that no text has are
never read.  And texts are ordered like their bytes (`encode_lt_encode_iff`):
of two characters the one with the lesser code point has the lesser bytes,
and no encoding is the beginning of another.

Both rest on the bytes of one character, which are quotients and
remainders of its code point by powers of 64.
-/
import TemplateGate.Text.Utf8

namespace TemplateGate.Text

/-! ## The bytes of a text -/

theorem byteArray_toList_loop (bytes : ByteArray) (i : Nat) (acc : List UInt8) :
    ByteArray.toList.loop bytes i acc = acc.reverse ++ bytes.data.toList.drop i := by
  have hsize : bytes.data.toList.length = bytes.size := by
    rw [Array.length_toList, ByteArray.size_data]
  rw [ByteArray.toList.loop]
  split
  · rename_i hi
    have hlt : i < bytes.data.toList.length := by omega
    have hget : bytes.get! i = bytes.data.toList[i] :=
      getElem!_pos bytes.data i hi
    rw [byteArray_toList_loop bytes (i + 1), List.drop_eq_getElem_cons hlt, hget]
    simp
  · rw [List.drop_eq_nil_of_le (by omega), List.append_nil]
termination_by bytes.size - i

theorem byteArray_toList_eq (bytes : ByteArray) : bytes.toList = bytes.data.toList :=
  byteArray_toList_loop bytes 0 []

theorem toList_data_utf8Encode (cs : List Char) :
    cs.utf8Encode.data.toList = cs.flatMap String.utf8EncodeChar := by
  induction cs with
  | nil => rfl
  | cons c cs ih =>
      rw [List.utf8Encode_cons, ByteArray.toList_data_append, List.utf8Encode_singleton,
        List.toList_data_toByteArray, ih, List.flatMap_cons]

theorem encode_eq_flatMap (s : String) : encode s = s.toList.flatMap String.utf8EncodeChar := by
  rw [encode, byteArray_toList_eq, String.toUTF8_eq_toByteArray, ← String.utf8Encode_toList,
    toList_data_utf8Encode]

/-! ## The order of bytes -/

/-- Code points reach to 0x10FFFF and leave out the surrogates. -/
theorem toNat_valid (c : Char) : c.toNat < 0xD800 ∨ (0xDFFF < c.toNat ∧ c.toNat < 0x110000) :=
  c.valid

/-- Of two characters the lesser one has the lesser bytes, whatever follows. -/
theorem utf8EncodeChar_append_lt {c d : Char} (h : c < d) (xs ys : List UInt8) :
    String.utf8EncodeChar c ++ xs < String.utf8EncodeChar d ++ ys := by
  have hlt : c.toNat < d.toNat := h
  have hc := toNat_valid c
  have hd := toNat_valid d
  have h4096 : ∀ n, n / 4096 = n / 64 / 64 := fun n => by omega
  have h262144 : ∀ n, n / 262144 = n / 64 / 64 / 64 := fun n => by omega
  unfold String.utf8EncodeChar
  simp only [show c.val.toNat = c.toNat from rfl, show d.val.toNat = d.toNat from rfl]
  generalize c.toNat = m at *
  generalize d.toNat = n at *
  -- One case for each pair of widths.
  repeat' split
  all_goals
    simp only [List.cons_append, List.nil_append, List.cons_lt_cons_iff, UInt8.lt_iff_toNat_lt,
      ← UInt8.toNat_inj, UInt8.toNat_ofNat', h4096, h262144]
    simp (disch := omega) only [Nat.mod_eq_of_lt]
    omega

theorem flatMap_utf8EncodeChar_lt {cs : List Char} : ∀ {ds : List Char}, cs < ds →
    cs.flatMap String.utf8EncodeChar < ds.flatMap String.utf8EncodeChar := by
  induction cs with
  | nil =>
      intro ds h
      cases ds with
      | nil => exact absurd h (List.lt_irrefl _)
      | cons d ds =>
          rw [List.flatMap_nil, List.flatMap_cons]
          cases henc : String.utf8EncodeChar d with
          | nil => exact absurd henc String.utf8EncodeChar_ne_nil
          | cons b bs => exact List.nil_lt_cons _ _
  | cons c cs ih =>
      intro ds h
      cases ds with
      | nil => exact absurd h (List.not_lt_nil _)
      | cons d ds =>
          rw [List.flatMap_cons, List.flatMap_cons]
          rcases List.cons_lt_cons_iff.mp h with hlt | ⟨rfl, hrest⟩
          · exact utf8EncodeChar_append_lt hlt _ _
          · exact List.append_left_lt (ih hrest)

/-- The order of texts is the order of their bytes. -/
theorem encode_lt_encode_iff {s t : String} : encode s < encode t ↔ s < t := by
  rw [encode_eq_flatMap, encode_eq_flatMap]
  constructor
  · intro h
    refine String.not_le.mp fun hle => ?_
    by_cases heq : t = s
    · exact List.lt_irrefl _ (heq ▸ h)
    · have hlt : t < s := String.not_le.mp fun hge => heq (String.le_antisymm hle hge)
      exact List.lt_asymm h (flatMap_utf8EncodeChar_lt hlt)
  · exact flatMap_utf8EncodeChar_lt

/-! ## Reading the bytes of a text -/

namespace Utf8State

theorem first_one {b : UInt8} (h : b.toNat < 0x80) :
    first b = ([some (Char.ofNat b.toNat)], .idle) := by
  rw [first]
  rw [if_pos h]

theorem first_two {b : UInt8} (h : 0xC2 ≤ b.toNat ∧ b.toNat < 0xE0) :
    first b = ([], .inside 0x80 0xBF 0 (b.toNat - 0xC0)) := by
  rw [first]
  rw [if_neg (by omega), if_neg (by omega), if_pos (by omega)]

/-- The bounds on the second of three bytes keep out what two bytes can
encode, and the surrogates. -/
theorem first_three {b : UInt8} (h : 0xE0 ≤ b.toNat ∧ b.toNat < 0xF0) :
    first b = ([], .inside (if b.toNat = 0xE0 then 0xA0 else 0x80)
      (if b.toNat = 0xED then 0x9F else 0xBF) 1 (b.toNat - 0xE0)) := by
  rw [first]
  rw [if_neg (by omega), if_neg (by omega), if_neg (by omega)]
  grind

/-- The bounds on the second of four bytes keep out what three bytes can
encode, and what lies beyond the last code point. -/
theorem first_four {b : UInt8} (h : 0xF0 ≤ b.toNat ∧ b.toNat < 0xF5) :
    first b = ([], .inside (if b.toNat = 0xF0 then 0x90 else 0x80)
      (if b.toNat = 0xF4 then 0x8F else 0xBF) 2 (b.toNat - 0xF0)) := by
  rw [first]
  rw [if_neg (by omega), if_neg (by omega), if_neg (by omega), if_neg (by omega),
    if_neg (by omega), if_neg (by omega)]
  grind

end Utf8State

open Utf8State

/-- Inside a character a byte in range adds six bits to the value. -/
theorem utf8Pieces_inside {low high b : UInt8} {owed value : Nat} {bs : List UInt8}
    (h : low.toNat ≤ b.toNat ∧ b.toNat ≤ high.toNat) :
    utf8Pieces (.inside low high (owed + 1) value) (b :: bs) =
      utf8Pieces (.inside 0x80 0xBF owed (value * 64 + (b.toNat - 0x80))) bs := by
  rw [utf8Pieces, step, if_pos (by simpa only [UInt8.le_iff_toNat_le] using h)]
  rfl

theorem utf8Pieces_last {low high b : UInt8} {value : Nat} {bs : List UInt8}
    (h : low.toNat ≤ b.toNat ∧ b.toNat ≤ high.toNat) :
    utf8Pieces (.inside low high 0 value) (b :: bs) =
      some (Char.ofNat (value * 64 + (b.toNat - 0x80))) :: utf8Pieces .idle bs := by
  rw [utf8Pieces, step, if_pos (by simpa only [UInt8.le_iff_toNat_le] using h)]
  rfl

theorem utf8Pieces_idle (b : UInt8) (bs : List UInt8) :
    utf8Pieces .idle (b :: bs) = (first b).1 ++ utf8Pieces (first b).2 bs := rfl

theorem toNat_ofNat_byte {n : Nat} (h : n < 256) : (UInt8.ofNat n).toNat = n := by
  rw [UInt8.toNat_ofNat', Nat.mod_eq_of_lt h]

theorem tail_bounds (n : Nat) : (0x80 : UInt8).toNat ≤ (UInt8.ofNat (n % 64 + 128)).toNat ∧
    (UInt8.ofNat (n % 64 + 128)).toNat ≤ (0xBF : UInt8).toNat := by
  rw [toNat_ofNat_byte (by omega), show (0x80 : UInt8).toNat = 0x80 from rfl,
    show (0xBF : UInt8).toNat = 0xBF from rfl]
  omega

theorem utf8Pieces_utf8EncodeChar (c : Char) (bs : List UInt8) :
    utf8Pieces .idle (String.utf8EncodeChar c ++ bs) = some c :: utf8Pieces .idle bs := by
  have hc := toNat_valid c
  have hofNat : Char.ofNat c.toNat = c := Char.ofNat_toNat c
  rw [String.utf8EncodeChar]
  simp only [show c.val.toNat = c.toNat from rfl]
  generalize c.toNat = m at *
  subst hofNat
  split
  · have h0 := toNat_ofNat_byte (n := m) (by omega)
    rw [List.singleton_append, utf8Pieces_idle, first_one (by omega), h0]
    rfl
  split
  · have h0 := toNat_ofNat_byte (n := m / 64 % 32 + 192) (by omega)
    have h1 := toNat_ofNat_byte (n := m % 64 + 128) (by omega)
    rw [List.cons_append, utf8Pieces_idle, first_two (by omega), List.cons_append,
      List.nil_append, List.nil_append, utf8Pieces_last (tail_bounds m), h0, h1,
      show (m / 64 % 32 + 192 - 0xC0) * 64 + (m % 64 + 128 - 0x80) = m by omega]
  split
  · have h0 := toNat_ofNat_byte (n := m / 4096 % 16 + 224) (by omega)
    have h1 := toNat_ofNat_byte (n := m / 64 % 64 + 128) (by omega)
    have h2 := toNat_ofNat_byte (n := m % 64 + 128) (by omega)
    rw [List.cons_append, utf8Pieces_idle, first_three (by omega), List.cons_append,
      List.cons_append, List.nil_append, List.nil_append, h0, utf8Pieces_inside,
      utf8Pieces_last (tail_bounds m), h1, h2,
      show ((m / 4096 % 16 + 224 - 0xE0) * 64 + (m / 64 % 64 + 128 - 0x80)) * 64 +
        (m % 64 + 128 - 0x80) = m by omega]
    simp only [apply_ite UInt8.toNat, UInt8.reduceToNat, h1]
    constructor <;> split <;> omega
  · have h0 := toNat_ofNat_byte (n := m / 262144 % 8 + 240) (by omega)
    have h1 := toNat_ofNat_byte (n := m / 4096 % 64 + 128) (by omega)
    have h2 := toNat_ofNat_byte (n := m / 64 % 64 + 128) (by omega)
    have h3 := toNat_ofNat_byte (n := m % 64 + 128) (by omega)
    rw [List.cons_append, utf8Pieces_idle, first_four (by omega), List.cons_append,
      List.cons_append, List.cons_append, List.nil_append, List.nil_append, h0,
      utf8Pieces_inside, utf8Pieces_inside (tail_bounds (m / 64)),
      utf8Pieces_last (tail_bounds m), h1, h2, h3,
      show (((m / 262144 % 8 + 240 - 0xF0) * 64 + (m / 4096 % 64 + 128 - 0x80)) * 64 +
        (m / 64 % 64 + 128 - 0x80)) * 64 + (m % 64 + 128 - 0x80) = m by omega]
    simp only [apply_ite UInt8.toNat, UInt8.reduceToNat, h1]
    constructor <;> split <;> omega

theorem utf8Pieces_flatMap (cs : List Char) :
    utf8Pieces .idle (cs.flatMap String.utf8EncodeChar) = cs.map some := by
  induction cs with
  | nil => rfl
  | cons c cs ih => rw [List.flatMap_cons, utf8Pieces_utf8EncodeChar, ih, List.map_cons]

theorem mapM_id_map_some (cs : List Char) : (cs.map some).mapM id = some cs := by
  induction cs with
  | nil => rfl
  | cons c cs ih =>
      rw [List.map_cons, List.mapM_cons, ih]
      rfl

theorem decode_encode (s : String) : decode (encode s) = some s := by
  rw [decode, encode_eq_flatMap, utf8Pieces_flatMap, mapM_id_map_some, Option.map_some,
    String.ofList_toList]

/-! ## What can be read is the bytes of a text -/

variable {low high : UInt8} {owed value : Nat} {bytes : List UInt8} {c : Char}
  {rest : List (Option Char)}

/-- A character that was begun is ended or broken. -/
theorem utf8Pieces_inside_ne_nil :
    utf8Pieces (.inside low high owed value) bytes ≠ [] := by
  induction bytes generalizing low high owed value with
  | nil => exact List.cons_ne_nil _ _
  | cons b bs ih =>
      by_cases hb : low.toNat ≤ b.toNat ∧ b.toNat ≤ high.toNat
      · cases owed with
        | zero =>
            rw [utf8Pieces_last hb]
            exact List.cons_ne_nil _ _
        | succ owed =>
            rw [utf8Pieces_inside hb]
            exact ih
      · rw [utf8Pieces, step, if_neg (by simpa only [UInt8.le_iff_toNat_le] using hb)]
        exact List.cons_ne_nil _ _

theorem eq_nil_of_utf8Pieces_eq_nil (h : utf8Pieces .idle bytes = []) : bytes = [] := by
  cases bytes with
  | nil => rfl
  | cons b bs =>
      rw [utf8Pieces_idle, first] at h
      grind [utf8Pieces_inside_ne_nil]

/-- A byte out of range breaks a character, so one that is read is in range. -/
theorem exists_cons_of_utf8Pieces_inside
    (h : utf8Pieces (.inside low high owed value) bytes = some c :: rest) :
    ∃ b bs, bytes = b :: bs ∧ low.toNat ≤ b.toNat ∧ b.toNat ≤ high.toNat := by
  cases bytes with
  | nil => simp [utf8Pieces] at h
  | cons b bs =>
      refine ⟨b, bs, rfl, Decidable.byContradiction fun hout => ?_⟩
      rw [utf8Pieces, step, if_neg (by simpa only [UInt8.le_iff_toNat_le] using hout)] at h
      simp at h

theorem exists_cons_of_inside
    (h : utf8Pieces (.inside low high (owed + 1) value) bytes = some c :: rest) :
    ∃ b bs, bytes = b :: bs ∧ (low.toNat ≤ b.toNat ∧ b.toNat ≤ high.toNat) ∧
      utf8Pieces (.inside 0x80 0xBF owed (value * 64 + (b.toNat - 0x80))) bs = some c :: rest := by
  obtain ⟨b, bs, rfl, hb⟩ := exists_cons_of_utf8Pieces_inside h
  exact ⟨b, bs, rfl, hb, by rw [← utf8Pieces_inside hb, h]⟩

theorem exists_cons_of_last (h : utf8Pieces (.inside low high 0 value) bytes = some c :: rest) :
    ∃ b bs, bytes = b :: bs ∧ (low.toNat ≤ b.toNat ∧ b.toNat ≤ high.toNat) ∧
      c = Char.ofNat (value * 64 + (b.toNat - 0x80)) ∧ utf8Pieces .idle bs = rest := by
  obtain ⟨b, bs, rfl, hb⟩ := exists_cons_of_utf8Pieces_inside h
  rw [utf8Pieces_last hb] at h
  obtain ⟨hc, hrest⟩ := List.cons.inj h
  exact ⟨b, bs, rfl, hb, (Option.some.inj hc).symm, hrest⟩

theorem toNat_ofNat_of_valid {n : Nat} (h : n < 0xD800 ∨ (0xDFFF < n ∧ n < 0x110000)) :
    (Char.ofNat n).toNat = n := by
  rw [Char.ofNat, dif_pos h]
  rfl

/-- Bytes that make up the code point of a character, in the way of one of
the four widths, are the bytes of that character. -/
theorem utf8EncodeChar_eq
    (h : (c.toNat < 0x80 ∧ bytes.map UInt8.toNat = [c.toNat]) ∨
      (0x80 ≤ c.toNat ∧ c.toNat < 0x800 ∧
        bytes.map UInt8.toNat = [c.toNat / 64 + 192, c.toNat % 64 + 128]) ∨
      (0x800 ≤ c.toNat ∧ c.toNat < 0x10000 ∧ bytes.map UInt8.toNat =
        [c.toNat / 4096 + 224, c.toNat / 64 % 64 + 128, c.toNat % 64 + 128]) ∨
      (0x10000 ≤ c.toNat ∧ bytes.map UInt8.toNat = [c.toNat / 262144 + 240,
        c.toNat / 4096 % 64 + 128, c.toNat / 64 % 64 + 128, c.toNat % 64 + 128])) :
    String.utf8EncodeChar c = bytes := by
  have hc := toNat_valid c
  refine (List.map_inj_right fun a b => UInt8.toNat_inj.mp).mp ?_
  rw [String.utf8EncodeChar]
  simp only [show c.val.toNat = c.toNat from rfl]
  generalize c.toNat = m at *
  rcases h with ⟨hlt, heq⟩ | ⟨hle, hlt, heq⟩ | ⟨hle, hlt, heq⟩ | ⟨hle, heq⟩
  · rw [if_pos (by omega), heq]
    simp only [List.map_cons, List.map_nil, List.cons.injEq, and_true, UInt8.toNat_ofNat']
    omega
  · rw [if_neg (by omega), if_pos (by omega), heq]
    simp only [List.map_cons, List.map_nil, List.cons.injEq, and_true, UInt8.toNat_ofNat']
    omega
  · rw [if_neg (by omega), if_neg (by omega), if_pos (by omega), heq]
    simp only [List.map_cons, List.map_nil, List.cons.injEq, and_true, UInt8.toNat_ofNat']
    omega
  · rw [if_neg (by omega), if_neg (by omega), if_neg (by omega), heq]
    simp only [List.map_cons, List.map_nil, List.cons.injEq, and_true, UInt8.toNat_ofNat']
    omega

theorem exists_eq_append_of_one {b0 : UInt8} (hb0 : b0.toNat < 0x80)
    (h : utf8Pieces .idle (b0 :: bytes) = some c :: rest) :
    ∃ bs, b0 :: bytes = String.utf8EncodeChar c ++ bs ∧ utf8Pieces .idle bs = rest := by
  rw [utf8Pieces_idle, first_one hb0] at h
  obtain ⟨hc, hrest⟩ := List.cons.inj h
  have hvalue : c.toNat = b0.toNat := by
    rw [← Option.some.inj hc, toNat_ofNat_of_valid (by omega)]
  have henc : String.utf8EncodeChar c = [b0] := by
    refine utf8EncodeChar_eq (.inl ?_)
    simp only [List.map_cons, List.map_nil, and_true, hvalue]
    exact hb0
  exact ⟨bytes, by rw [henc, List.singleton_append], hrest⟩

theorem exists_eq_append_of_two {b0 : UInt8} (hb0 : 0xC2 ≤ b0.toNat ∧ b0.toNat < 0xE0)
    (h : utf8Pieces .idle (b0 :: bytes) = some c :: rest) :
    ∃ bs, b0 :: bytes = String.utf8EncodeChar c ++ bs ∧ utf8Pieces .idle bs = rest := by
  rw [utf8Pieces_idle, first_two hb0] at h
  obtain ⟨b1, bs, rfl, hb1, hc, hrest⟩ := exists_cons_of_last h
  simp only [UInt8.reduceToNat] at hb1
  have hvalue : c.toNat = (b0.toNat - 0xC0) * 64 + (b1.toNat - 0x80) := by
    rw [hc, toNat_ofNat_of_valid (by omega)]
  have henc : String.utf8EncodeChar c = [b0, b1] := by
    refine utf8EncodeChar_eq (.inr (.inl ?_))
    simp only [List.map_cons, List.map_nil, List.cons.injEq, and_true, hvalue]
    omega
  exact ⟨bs, by rw [henc]; rfl, hrest⟩

theorem exists_eq_append_of_three {b0 : UInt8} (hb0 : 0xE0 ≤ b0.toNat ∧ b0.toNat < 0xF0)
    (h : utf8Pieces .idle (b0 :: bytes) = some c :: rest) :
    ∃ bs, b0 :: bytes = String.utf8EncodeChar c ++ bs ∧ utf8Pieces .idle bs = rest := by
  rw [utf8Pieces_idle, first_three hb0] at h
  obtain ⟨b1, bs, rfl, hb1, h⟩ := exists_cons_of_inside h
  obtain ⟨b2, bs, rfl, hb2, hc, hrest⟩ := exists_cons_of_last h
  simp only [apply_ite UInt8.toNat, UInt8.reduceToNat] at hb1 hb2
  have hb1 : 0x80 ≤ b1.toNat ∧ b1.toNat ≤ 0xBF ∧ (b0.toNat = 0xE0 → 0xA0 ≤ b1.toNat) ∧
      (b0.toNat = 0xED → b1.toNat ≤ 0x9F) := by
    grind
  have hvalue : c.toNat =
      ((b0.toNat - 0xE0) * 64 + (b1.toNat - 0x80)) * 64 + (b2.toNat - 0x80) := by
    rw [hc, toNat_ofNat_of_valid (by omega)]
  have henc : String.utf8EncodeChar c = [b0, b1, b2] := by
    refine utf8EncodeChar_eq (.inr (.inr (.inl ?_)))
    simp only [List.map_cons, List.map_nil, List.cons.injEq, and_true, hvalue]
    omega
  exact ⟨bs, by rw [henc]; rfl, hrest⟩

theorem exists_eq_append_of_four {b0 : UInt8} (hb0 : 0xF0 ≤ b0.toNat ∧ b0.toNat < 0xF5)
    (h : utf8Pieces .idle (b0 :: bytes) = some c :: rest) :
    ∃ bs, b0 :: bytes = String.utf8EncodeChar c ++ bs ∧ utf8Pieces .idle bs = rest := by
  rw [utf8Pieces_idle, first_four hb0] at h
  obtain ⟨b1, bs, rfl, hb1, h⟩ := exists_cons_of_inside h
  obtain ⟨b2, bs, rfl, hb2, h⟩ := exists_cons_of_inside h
  obtain ⟨b3, bs, rfl, hb3, hc, hrest⟩ := exists_cons_of_last h
  simp only [apply_ite UInt8.toNat, UInt8.reduceToNat] at hb1 hb2 hb3
  have hb1 : 0x80 ≤ b1.toNat ∧ b1.toNat ≤ 0xBF ∧ (b0.toNat = 0xF0 → 0x90 ≤ b1.toNat) ∧
      (b0.toNat = 0xF4 → b1.toNat ≤ 0x8F) := by
    grind
  have hvalue : c.toNat = (((b0.toNat - 0xF0) * 64 + (b1.toNat - 0x80)) * 64 +
      (b2.toNat - 0x80)) * 64 + (b3.toNat - 0x80) := by
    rw [hc, toNat_ofNat_of_valid (by omega)]
  have henc : String.utf8EncodeChar c = [b0, b1, b2, b3] := by
    refine utf8EncodeChar_eq (.inr (.inr (.inr ?_)))
    simp only [List.map_cons, List.map_nil, List.cons.injEq, and_true, hvalue]
    omega
  exact ⟨bs, by rw [henc]; rfl, hrest⟩

theorem first_broken {b : UInt8} (h : (0x80 ≤ b.toNat ∧ b.toNat < 0xC2) ∨ 0xF5 ≤ b.toNat) :
    first b = ([none], .idle) := by
  rw [first]
  grind

theorem exists_eq_append_of_utf8Pieces (h : utf8Pieces .idle bytes = some c :: rest) :
    ∃ bs, bytes = String.utf8EncodeChar c ++ bs ∧ utf8Pieces .idle bs = rest := by
  cases bytes with
  | nil => simp [utf8Pieces] at h
  | cons b0 bs =>
      rcases (by omega : b0.toNat < 0x80 ∨ (0xC2 ≤ b0.toNat ∧ b0.toNat < 0xE0) ∨
        (0xE0 ≤ b0.toNat ∧ b0.toNat < 0xF0) ∨ (0xF0 ≤ b0.toNat ∧ b0.toNat < 0xF5) ∨
        ((0x80 ≤ b0.toNat ∧ b0.toNat < 0xC2) ∨ 0xF5 ≤ b0.toNat))
        with hone | htwo | hthree | hfour | hbroken
      · exact exists_eq_append_of_one hone h
      · exact exists_eq_append_of_two htwo h
      · exact exists_eq_append_of_three hthree h
      · exact exists_eq_append_of_four hfour h
      · rw [utf8Pieces_idle, first_broken hbroken] at h
        cases h

theorem flatMap_utf8EncodeChar_of_utf8Pieces {cs : List Char} : ∀ {bytes : List UInt8},
    utf8Pieces .idle bytes = cs.map some → cs.flatMap String.utf8EncodeChar = bytes := by
  induction cs with
  | nil => exact fun h => (eq_nil_of_utf8Pieces_eq_nil h).symm
  | cons c cs ih =>
      intro bytes h
      obtain ⟨bs, rfl, hrest⟩ := exists_eq_append_of_utf8Pieces h
      rw [List.flatMap_cons, ih hrest]

theorem eq_map_some_of_mapM_id {pieces : List (Option Char)} : ∀ {cs : List Char},
    pieces.mapM id = some cs → pieces = cs.map some := by
  induction pieces with
  | nil =>
      rintro cs ⟨⟩
      rfl
  | cons p pieces ih =>
      intro cs h
      simp only [List.mapM_cons, id_eq, Option.bind_eq_bind, Option.bind_eq_some_iff] at h
      obtain ⟨c, rfl, cs, hcs, ⟨⟩⟩ := h
      rw [ih hcs, List.map_cons]

/-- Bytes are decoded to a text exactly if they are the bytes of that text. -/
theorem decode_eq_some_iff {s : String} :
    decode bytes = some s ↔ encode s = bytes := by
  constructor
  · intro h
    obtain ⟨cs, hcs, rfl⟩ := Option.map_eq_some_iff.mp h
    rw [encode_eq_flatMap, String.toList_ofList]
    exact flatMap_utf8EncodeChar_of_utf8Pieces (eq_map_some_of_mapM_id hcs)
  · rintro rfl
    exact decode_encode s

end TemplateGate.Text
