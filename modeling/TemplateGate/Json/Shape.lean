/-
# `Json.Shape` — what a value must look like

Reports and abbreviation files are JSON of a known shape, and a text that
is JSON but not of that shape is refused where the mismatch shows, not
after the whole text has been read.  A `Shape` describes such a family of
values; `Shape.read` reads a value of the shape from tokens, `Shape.fit`
fits a value that has been read already.  Both return the value in its
normal form, in which every record has its own fields and no others, in
the order of the shape, with defaults filled in and unset fields left
out.  So what is made of a report afterwards looks at one form only.

Records have three peculiarities.  A member that the shape does not know
is passed over, whatever it holds.  A known member that occurs twice is a
mismatch.  And an array stands for a record when its items fit the
fields in order.
-/
import TemplateGate.Json.Reader

namespace TemplateGate.Json

/-- Whether a field of a record has to be there. -/
inductive Presence where
  | required
  /-- May be absent or `null`, and is unset then; in an array it takes a place. -/
  | optional
  /-- May be absent or `null`, and is unset then; an array may end before it. -/
  | omittable
  /-- May be absent, and has a value then; `null` is a value like any other. -/
  | default (value : Value)

/-- A family of JSON values. -/
inductive Shape where
  | any
  | text
  /-- A text with a property. -/
  | textWhere (holds : String → Bool)
  /-- A truth value. -/
  | flag
  /-- An integer of 32 bits without sign; `1.0` is none. -/
  | word
  /-- One of a few names, or an object with such a name as its only key
  and `null` under it. -/
  | choice (names : List String)
  | list (item : Shape)
  /-- An object with values of one shape under any keys. -/
  | dictionary (item : Shape)
  | record (fields : List (String × Presence × Shape))

/-- The fields of a record. -/
abbrev Fields := List (String × Presence × Shape)

namespace Fields

/-- The field with a given name. -/
def find? (name : String) : Fields → Option (Presence × Shape)
  | [] => none
  | (n, p, s) :: rest => if n = name then some (p, s) else find? name rest

/-- What an absent field contributes to the normal form; `none` if it is required. -/
def absent (name : String) : Presence → Option Members
  | .required => none
  | .optional => some []
  | .omittable => some []
  | .default v => some [(name, v)]

/-- What a field contributes before which an array ends; `none` if it
takes a place. -/
def cutOff (name : String) : Presence → Option Members
  | .omittable => some []
  | .default v => some [(name, v)]
  | _ => none

/-- Whether `null` leaves a field unset. -/
def isNullable : Presence → Bool
  | .optional => true
  | .omittable => true
  | _ => false

/-- The normal form of a record, from what was found under the names of
its fields: nothing, an unset value, or a value. -/
def assemble (found : String → Option (Option Value)) : Fields → Option Members
  | [] => some []
  | (name, presence, _) :: rest => do
      let head ← match found name with
        | none => absent name presence
        | some none => some []
        | some (some v) => some [(name, v)]
      pure (head ++ (← assemble found rest))

end Fields

/-- The first entry with a key among what has been found. -/
def foundIn (found : List (String × Option Value)) (name : String) : Option (Option Value) :=
  match found with
  | [] => none
  | (n, v) :: rest => if n = name then some v else foundIn rest name

/-- Whether a number is an integer of 32 bits without sign. -/
def Number.isWord : Number → Bool
  | .integer n _ => 0 ≤ n && n < 4294967296
  | .double _ => false

/-- The fault of a value where another shape was asked for.  A scalar is
read before its kind is looked at, an array or object is not. -/
def mismatch : List Token → Fault
  | .openArray :: _ => .mistyped
  | .openObject :: _ => .mistyped
  | t :: rest =>
      match scalar t with
      | some (.ok _) => .mistyped
      | some (.error fault) => fault
      | none => noValue (t :: rest)
  | [] => .cutShort

/-- The value under the only key of an object that stands for a name. -/
def readUnit : List Token → Except Fault (List Token)
  | .null :: .closeObject :: rest => .ok rest
  | .null :: rest => .error (unexpected rest)
  | ts => .error (mismatch ts)

/-- One of the given names. -/
def readChoice (depth : Nat) (names : List String) (ts : List Token) :
    Except Fault (Value × List Token) :=
  match ts with
  | .string (.ok name) _ :: rest =>
      if name ∈ names then .ok (.string name, rest) else .error .mistyped
  | .string (.error fault) _ :: _ => .error fault
  | .openObject :: .string (.ok name) _ :: rest =>
      if depth = 0 then .error .malformed
      else if name ∈ names then do
        let rest ← readUnit (← afterColon rest)
        .ok (.string name, rest)
      else .error .mistyped
  | .openObject :: .string (.error fault) _ :: _ =>
      .error (if depth = 0 then .malformed else fault)
  | .openObject :: rest => .error (if depth = 0 then .malformed else unexpected rest)
  | ts => .error (unexpected ts)

/-- Moves to the next item of an array that stands for a record: `none` at
its end. -/
def nextItem (first : Bool) : List Token → Except Fault (Option (List Token))
  | .closeArray :: _ => .ok none
  | .comma :: rest =>
      if first then .ok (some (.comma :: rest))
      else match rest with
        | [] => .error .cutShort
        | .closeArray :: _ => .error .malformed
        | rest => .ok (some rest)
  | [] => .error .cutShort
  | ts => if first then .ok (some ts) else .error .malformed

/-- The end of an array all of whose items have been read. -/
def closeItems : List Token → Except Fault (List Token)
  | .closeArray :: rest => .ok rest
  | ts => .error (unexpected ts)

/-- The value of a field, unset if it is `null` and may be. -/
def readField (read : Shape → List Token → Except Fault (Value × List Token))
    (presence : Presence) (shape : Shape) (ts : List Token) :
    Except Fault (Option Value × List Token) :=
  match Fields.isNullable presence, ts with
  | true, .null :: rest => .ok (none, rest)
  | _, ts => (read shape ts).map fun (v, rest) => (some v, rest)

/-- The fields of a record from the items of an array. -/
def readPositions (read : Shape → List Token → Except Fault (Value × List Token)) :
    Bool → Fields → List Token → Except Fault (Members × List Token)
  | _, [], ts => .ok ([], ts)
  | first, (name, presence, shape) :: fields, ts => do
      match ← nextItem first ts with
      | some ts => do
          let (v, ts) ← readField read presence shape ts
          let (ms, ts) ← readPositions read false fields ts
          .ok ((v.map fun v => (name, v)).toList ++ ms, ts)
      | none =>
          match Fields.cutOff name presence with
          | some head => do
              let (ms, ts) ← readPositions read false fields ts
              .ok (head ++ ms, ts)
          | none => .error .mistyped

/-- One member of a record: a known one is read, any other passed over. -/
def readMember (read : Shape → List Token → Except Fault (Value × List Token))
    (fields : Fields) (found : List (String × Option Value)) (name : String)
    (ts : List Token) : Except Fault (List (String × Option Value) × List Token) :=
  match Fields.find? name fields with
  | none => do
      let rest ← afterColon ts
      .ok (found, ← pass rest.length rest)
  | some (presence, shape) =>
      if (foundIn found name).isSome then .error .mistyped
      else do
        let (v, rest) ← readField read presence shape (← afterColon ts)
        .ok (found ++ [(name, v)], rest)

namespace Shape

/-- Reads a value of a shape, in its normal form. -/
def read (depth : Nat) (shape : Shape) (ts : List Token) : Except Fault (Value × List Token) :=
  match shape with
  | .any => value depth ts
  | .text =>
      match ts with
      | .string content _ :: rest => content.map fun s => (.string s, rest)
      | ts => .error (mismatch ts)
  | .textWhere holds =>
      match ts with
      | .string (.ok s) _ :: rest =>
          if holds s then .ok (.string s, rest) else .error .mistyped
      | ts => .error (mismatch ts)
  | .flag =>
      match ts with
      | .boolean b :: rest => .ok (.boolean b, rest)
      | ts => .error (mismatch ts)
  | .word =>
      match ts with
      | .number (some n) :: rest =>
          if n.isWord then .ok (.number n, rest) else .error .mistyped
      | ts => .error (mismatch ts)
  | .choice names => readChoice depth names ts
  | .list item =>
      match depth, ts with
      | depth + 1, .openArray :: rest => do
          let (vs, rest) ← items (read depth item) rest
          .ok (.array vs, rest)
      | 0, .openArray :: _ => .error .malformed
      | _, ts => .error (mismatch ts)
  | .dictionary item =>
      match depth, ts with
      | depth + 1, .openObject :: rest => do
          let (ms, rest) ← members (fun (acc : Members) k ts => do
            let (v, rest) ← read depth item (← afterColon ts)
            .ok (acc.set k v, rest)) [] rest
          .ok (.object ms, rest)
      | 0, .openObject :: _ => .error .malformed
      | _, ts => .error (mismatch ts)
  | .record fields =>
      match depth, ts with
      | depth + 1, .openObject :: rest => do
          let (found, rest) ← members (readMember (read depth) fields) [] rest
          match Fields.assemble (foundIn found) fields with
          | some ms => .ok (.object ms, rest)
          | none => .error .mistyped
      | depth + 1, .openArray :: rest => do
          let (ms, rest) ← readPositions (read depth) true fields rest
          .ok (.object ms, ← closeItems rest)
      | 0, .openObject :: _ => .error .malformed
      | 0, .openArray :: _ => .error .malformed
      | _, ts => .error (mismatch ts)

/-- The value of a shape that a text denotes, in its normal form. -/
def parse (shape : Shape) (text : String) : Except Fault Value :=
  finish (read maxDepth shape (tokens text.toList))

mutual

/-- Fits a value to a shape: its normal form, if it is of the shape. -/
def fit : Shape → Value → Option Value
  | .any, v => some v
  | .text, v => v.text?.map .string
  | .textWhere holds, v => (v.text?.filter holds).map .string
  | .flag, .boolean b => some (.boolean b)
  | .word, .number n => if n.isWord then some (.number n) else none
  | .choice names, .string s => if s ∈ names then some (.string s) else none
  | .choice names, .object [(s, .null)] => if s ∈ names then some (.string s) else none
  | .list item, .array vs => (vs.mapM (fit item)).map .array
  | .dictionary item, .object ms =>
      (ms.mapM fun (m : String × Value) => (fit item m.2).map fun v => (m.1, v)).map .object
  | .record fields, .object ms => (fitMembers fields ms).map .object
  | .record fields, .array vs => (fitPositions fields vs).map .object
  | _, _ => none

/-- Fits the members of an object to the fields of a record. -/
def fitMembers : List (String × Presence × Shape) → Members → Option Members
  | [], _ => some []
  | (name, presence, shape) :: fields, ms => do
      let head ← match Fields.isNullable presence, ms.get? name with
        | _, none => Fields.absent name presence
        | true, some .null => some []
        | _, some v => (fit shape v).map fun v => [(name, v)]
      pure (head ++ (← fitMembers fields ms))

/-- Fits the items of an array to the fields of a record, in order. -/
def fitPositions : List (String × Presence × Shape) → List Value → Option Members
  | [], [] => some []
  | [], _ :: _ => none
  | (name, presence, shape) :: fields, vs => do
      let head ← match Fields.isNullable presence, vs with
        | _, [] => Fields.cutOff name presence
        | true, .null :: _ => some []
        | _, v :: _ => (fit shape v).map fun v => [(name, v)]
      pure (head ++ (← fitPositions fields vs.tail))

end

end Shape

end TemplateGate.Json
