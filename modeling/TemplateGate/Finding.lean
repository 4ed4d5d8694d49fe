/-
# `Finding` — one violation, tied to the resource it was found at

All findings weigh the same: any of them fails the run.  The payload is
open; `null` stands for none, and neither it nor an unset part is written.

Positions, like all counts of a report, are words of 32 bits.  A number
that does not fit is reported as the greatest one, never as a small one.

What makes two findings of different runs the same is the check, the code,
the position and the name of the resource, and for some checks one detail
more.  The parts are joined by vertical bars to the canonical text, and
the fingerprint is the SHA-256 of its bytes.  The canonical text is kept
apart from the digest, since what can be said about it needs no
cryptography.
-/
import TemplateGate.Check
import TemplateGate.Resource
import TemplateGate.Sha256
import TemplateGate.Text.Basic
import TemplateGate.Text.Utf8

namespace TemplateGate

open Json Text

/-! ## Counts of 32 bits -/

/-- A natural number as a word, the greatest word standing for what does not fit. -/
def saturate (n : Nat) : UInt32 := if n < 4294967296 then UInt32.ofNat n else 4294967295

/-- A saturated number is the lesser of the number and the greatest word. -/
theorem toNat_saturate (n : Nat) : (saturate n).toNat = min n 4294967295 := by
  unfold saturate
  split
  · rename_i h
    rw [UInt32.toNat_ofNat', Nat.mod_eq_of_lt h]
    omega
  · rw [show (4294967295 : UInt32).toNat = 4294967295 from rfl]
    omega

theorem saturate_of_lt {n : Nat} (h : n < 4294967296) : saturate n = UInt32.ofNat n := if_pos h

/-- A number that fits is kept. -/
theorem toNat_saturate_of_lt {n : Nat} (h : n < 4294967296) : (saturate n).toNat = n := by
  rw [toNat_saturate]
  omega

/-! ## Identities -/

/-- The identity of a finding. -/
structure Identity where
  checkId : String
  code : String
  index : Nat
  name : String
  detail : Option String
  deriving DecidableEq, Repr

namespace Identity

/-- The parts of the canonical text. -/
def parts (i : Identity) : List String :=
  [i.checkId, i.code, numeral i.index, i.name] ++ i.detail.toList

/-- The text that is hashed. -/
def canonical (i : Identity) : String := String.intercalate "|" i.parts

/-- The fingerprint: 64 lower-case hexadecimal digits. -/
def fingerprint (i : Identity) : String := hex (Sha256.digest (encode i.canonical))

end Identity

/-! ## Findings -/

/-- A pointer from a finding to its resource. -/
structure ResourceRef where
  /-- The position in the document, counted from zero. -/
  index : UInt32
  name : String
  type : String
  deriving DecidableEq, Repr

/-- A violation of the policy. -/
structure Finding where
  checkId : String
  code : String
  message : String
  resource : Option ResourceRef
  help : Option String
  fingerprint : Option String
  data : Value
  deriving Repr

/-- The reference to the resource at a position. -/
def Resource.ref (r : Resource) (index : Nat) : ResourceRef :=
  ⟨saturate index, r.name, r.type⟩

/-- A resource reference as JSON. -/
def ResourceRef.toValue (r : ResourceRef) : Value :=
  .object [("index", .ofNat r.index.toNat), ("name", .string r.name), ("type", .string r.type)]

namespace Finding

/-- A member that is written only if it is set. -/
def member? (key : String) (value : Option Value) : Members :=
  (value.map fun v => (key, v)).toList

/-- A payload, unset if it is null. -/
def payload? : Value → Option Value
  | .null => none
  | v => some v

/-- A finding as JSON. -/
def toValue (f : Finding) : Value :=
  .object (
    [("check_id", .string f.checkId), ("code", .string f.code), ("message", .string f.message)] ++
      member? "resource" (f.resource.map ResourceRef.toValue) ++
      member? "help" (f.help.map .string) ++
      member? "fingerprint" (f.fingerprint.map .string) ++
      member? "data" (payload? f.data))

end Finding

end TemplateGate
