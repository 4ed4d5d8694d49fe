/-
# `Json.Value` — JSON values, with the order of members kept

A JSON value as this library reads and writes it.  Two decisions differ
from the usual tree type.  Members of an object keep the position of
their first occurrence, because payloads of findings are reported in the
order they were built; and a number remembers whether it was an integer
of 64 bits or had to be held as a double, because the two are written
differently and never count as equal.

`Value.same` is equality of values as data: it ignores the order of
members and the sign of a zero, and nothing else.
-/
import TemplateGate.Decimal.Double

namespace TemplateGate.Json

open Decimal

/-- A number: an integer from -2⁶³ to 2⁶⁴ - 1, or a double. -/
inductive Number where
  | integer (value : Int)
      (fits : -9223372036854775808 ≤ value ∧ value < 18446744073709551616)
  | double (value : Double)
  deriving DecidableEq, Repr

namespace Number

/-- An integer of 64 bits. -/
def ofInt? (value : Int) : Option Number :=
  if h : -9223372036854775808 ≤ value ∧ value < 18446744073709551616 then some (.integer value h)
  else none

/-- A natural number, as a double beyond 64 bits; `none` beyond the range
of doubles. -/
def ofNat? (n : Nat) : Option Number :=
  match ofInt? n with
  | some number => some number
  | none => (Double.ofQuotient? false n 1).map .double

/-- Whether the number is zero, in any notation. -/
def isZero : Number → Bool
  | .integer value _ => value == 0
  | .double d => d.isZero

/-- Equality of numbers; an integer never equals a double. -/
def same : Number → Number → Bool
  | .integer a _, .integer b _ => a == b
  | .double a, .double b => a.same b
  | _, _ => false

end Number

/-- A JSON value. -/
inductive Value where
  | null
  | boolean (value : Bool)
  | number (value : Number)
  | string (value : String)
  | array (items : List Value)
  | object (members : List (String × Value))
  deriving Repr

instance : Inhabited Value := ⟨.null⟩

/-- The members of an object, in the order of their first occurrence. -/
abbrev Members := List (String × Value)

namespace Members

/-- The value of the member with a given key. -/
def get? (key : String) : Members → Option Value
  | [] => none
  | (k, v) :: rest => if k = key then some v else get? key rest

/-- Sets a member: in its place if the key is there, at the end if not. -/
def set (key : String) (value : Value) : Members → Members
  | [] => [(key, value)]
  | (k, v) :: rest => if k = key then (k, value) :: rest else (k, v) :: set key value rest

/-- Sets the members of a second list, one after the other. -/
def setAll (members extra : Members) : Members :=
  extra.foldl (fun acc m => acc.set m.1 m.2) members

/-- The keys, in order. -/
def keys (members : Members) : List String := members.map (·.1)

theorem get?_set (key key' : String) (value : Value) :
    ∀ members : Members, get? key' (set key value members) =
      if key = key' then some value else get? key' members
  | [] => by simp [set, get?]
  | (k, v) :: rest => by
      by_cases hk : k = key
      · subst hk
        by_cases h' : k = key' <;> simp [set, get?, h']
      · rw [set, if_neg hk, get?, get?, get?_set key key' value rest]
        by_cases h' : k = key'
        · simp [h', show key ≠ key' from fun h => hk (h' ▸ h.symm)]
        · simp [h']

end Members

namespace Value

/-- A natural number as a JSON value. -/
def ofNat (n : Nat) : Value := ((Number.ofNat? n).map .number).getD .null

/-- The text of a string value. -/
def text? : Value → Option String
  | .string s => some s
  | _ => none

/-- The truth value of a boolean. -/
def flag? : Value → Option Bool
  | .boolean b => some b
  | _ => none

/-- The items of an array. -/
def items? : Value → Option (List Value)
  | .array items => some items
  | _ => none

/-- The members of an object. -/
def members? : Value → Option Members
  | .object members => some members
  | _ => none

/-- The value of a member of an object. -/
def get? (key : String) : Value → Option Value
  | .object members => Members.get? key members
  | _ => none

/-- Whether a value counts as set: not `null`, `false`, a zero, or an
empty text, array or object. -/
def isTruthy : Value → Bool
  | .null => false
  | .boolean b => b
  | .number n => !n.isZero
  | .string s => !s.isEmpty
  | .array items => !items.isEmpty
  | .object members => !members.isEmpty

mutual

/-- How deeply arrays and objects are nested in a value. -/
def depth : Value → Nat
  | .array items => depthItems items + 1
  | .object members => depthMembers members + 1
  | _ => 0

/-- The greatest depth among the items of an array. -/
def depthItems : List Value → Nat
  | [] => 0
  | v :: rest => max v.depth (depthItems rest)

/-- The greatest depth among the members of an object. -/
def depthMembers : List (String × Value) → Nat
  | [] => 0
  | (_, v) :: rest => max v.depth (depthMembers rest)

end

mutual

/-- Equality of values: members in any order, zeros of either sign. -/
def same : Value → Value → Bool
  | .null, .null => true
  | .boolean a, .boolean b => a == b
  | .number a, .number b => a.same b
  | .string a, .string b => a == b
  | .array as, .array bs => sameItems as bs
  | .object as, .object bs => as.length == bs.length && sameMembers as bs
  | _, _ => false

/-- Equality of arrays, item by item. -/
def sameItems : List Value → List Value → Bool
  | [], [] => true
  | a :: as, b :: bs => a.same b && sameItems as bs
  | _, _ => false

/-- Whether every member of the first object is in the second with an equal value. -/
def sameMembers : List (String × Value) → List (String × Value) → Bool
  | [], _ => true
  | (k, a) :: as, bs =>
      (match Members.get? k bs with
       | some b => a.same b
       | none => false) && sameMembers as bs

end

end Value

end TemplateGate.Json
