/-
# `Json.Reader` — values from tokens

A descent over the grammar of RFC 8259 with a bound on nesting.  The
bound is the recursion argument: an array or object is read with one
level less for its content, and on level 0 none can be opened.  The loops
over items and members run on the number of tokens left, of which every
round takes at least one.

Every reader returns the value together with the tokens behind it, or
the first fault in reading order.  Where a value is expected, the end of
the tokens and a token that is broken have their own faults; where only
a comma, a colon or a closing bracket can stand, anything else is
malformed whatever it would have become.
-/
import TemplateGate.Json.Lexer

namespace TemplateGate.Json

/-- The fault of a token where only punctuation can stand. -/
def unexpected : List Token → Fault
  | [] => .cutShort
  | _ :: _ => .malformed

/-- Passes the colon after a key. -/
def afterColon : List Token → Except Fault (List Token)
  | .colon :: rest => .ok rest
  | ts => .error (unexpected ts)

/-- The items of an array after the first, to the closing bracket. -/
def moreItems {α : Type} (item : List Token → Except Fault (α × List Token)) :
    Nat → List Token → Except Fault (List α × List Token)
  | _, .closeArray :: rest => .ok ([], rest)
  | fuel + 1, .comma :: rest => do
      let (a, rest) ← item rest
      let (as, rest) ← moreItems item fuel rest
      .ok (a :: as, rest)
  | _, ts => .error (unexpected ts)

/-- The items of an array, from behind its opening bracket. -/
def items {α : Type} (item : List Token → Except Fault (α × List Token)) :
    List Token → Except Fault (List α × List Token)
  | .closeArray :: rest => .ok ([], rest)
  | ts => do
      let (a, rest) ← item ts
      let (as, rest) ← moreItems item rest.length rest
      .ok (a :: as, rest)

/-- A key of an object. -/
def key : List Token → Except Fault (String × List Token)
  | .string text _ :: rest => text.map fun k => (k, rest)
  | ts => .error (unexpected ts)

/-- The members of an object after the first.  `member` is given what has
been gathered so far and a key, and reads on from behind the key. -/
def moreMembers {σ : Type} (member : σ → String → List Token → Except Fault (σ × List Token)) :
    Nat → σ → List Token → Except Fault (σ × List Token)
  | _, acc, .closeObject :: rest => .ok (acc, rest)
  | fuel + 1, acc, .comma :: rest => do
      let (k, rest) ← key rest
      let (acc, rest) ← member acc k rest
      moreMembers member fuel acc rest
  | _, _, ts => .error (unexpected ts)

/-- The members of an object, from behind its opening brace. -/
def members {σ : Type} (member : σ → String → List Token → Except Fault (σ × List Token))
    (start : σ) : List Token → Except Fault (σ × List Token)
  | .closeObject :: rest => .ok (start, rest)
  | ts => do
      let (k, rest) ← key ts
      let (acc, rest) ← member start k rest
      moreMembers member rest.length acc rest

/-- The fault of a token that cannot start a value. -/
def noValue : List Token → Fault
  | [] => .cutShort
  | .broken fault _ :: _ => fault
  | _ :: _ => .malformed

/-- The value of a token that is one by itself. -/
def scalar : Token → Option (Except Fault Value)
  | .null => some (.ok .null)
  | .boolean b => some (.ok (.boolean b))
  | .number n => some (n.elim (.error .malformed) fun n => .ok (.number n))
  | .string text _ => some (text.map .string)
  | _ => none

/-- A value with at most `depth` levels of arrays and objects. -/
def value (depth : Nat) (ts : List Token) : Except Fault (Value × List Token) :=
  match ts with
  | .openArray :: rest =>
      match depth with
      | 0 => .error .malformed
      | depth + 1 => do
          let (vs, rest) ← items (value depth) rest
          .ok (.array vs, rest)
  | .openObject :: rest =>
      match depth with
      | 0 => .error .malformed
      | depth + 1 => do
          let (ms, rest) ← members (fun (acc : Members) k ts => do
            let (v, rest) ← value depth (← afterColon ts)
            .ok (acc.set k v, rest)) [] rest
          .ok (.object ms, rest)
  | t :: rest =>
      match scalar t with
      | some v => v.map fun v => (v, rest)
      | none => .error (noValue (t :: rest))
  | [] => .error .cutShort

/-- How deeply arrays and objects may be nested in a text. -/
def maxDepth : Nat := 127

/-- The result of a reader, if nothing is left behind it. -/
def finish {α : Type} : Except Fault (α × List Token) → Except Fault α
  | .error fault => .error fault
  | .ok (a, []) => .ok a
  | .ok (_, _ :: _) => .error .malformed

/-- The value that a text denotes. -/
def parse (text : String) : Except Fault Value :=
  finish (value maxDepth (tokens text.toList))

/-! ## Passing over values -/

/-- A key that nobody looks at. -/
def passKey : List Token → Except Fault (List Token)
  | .string _ passed :: rest => passed.map fun _ => rest
  | ts => .error (unexpected ts)

/-- The members of an object after the first, passed over. -/
def passMembers (pass : List Token → Except Fault (List Token)) :
    Nat → List Token → Except Fault (List Token)
  | _, .closeObject :: rest => .ok rest
  | fuel + 1, .comma :: rest => do
      passMembers pass fuel (← pass (← afterColon (← passKey rest)))
  | _, ts => .error (unexpected ts)

/-- Passes over a value of any depth up to the given one. -/
def pass (depth : Nat) (ts : List Token) : Except Fault (List Token) :=
  match ts with
  | .openArray :: rest =>
      match depth with
      | 0 => .error .malformed
      | depth + 1 =>
          (items (fun ts => (pass depth ts).map fun rest => ((), rest)) rest).map (·.2)
  | .openObject :: .closeObject :: rest => .ok rest
  | .openObject :: rest =>
      match depth with
      | 0 => .error .malformed
      | depth + 1 => do
          let rest ← pass depth (← afterColon (← passKey rest))
          passMembers (pass depth) rest.length rest
  | .string _ passed :: rest => passed.map fun _ => rest
  | .null :: rest => .ok rest
  | .boolean _ :: rest => .ok rest
  | .number _ :: rest => .ok rest
  | .broken _ passed :: _ => .error passed
  | ts => .error (unexpected ts)

end TemplateGate.Json
