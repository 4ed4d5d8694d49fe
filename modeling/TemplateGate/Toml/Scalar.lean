/-
# `Toml.Scalar` — values that are written without quotation marks

Booleans, numbers and moments are a run of characters up to a line end, a
comma, a bracket, an equals sign or a comment, and each kind has its own
grammar over that run.  A run goes on behind blanks if something is there
that could belong to it; a date, a space and a time make one moment.
-/
import TemplateGate.Timestamp
import TemplateGate.Toml.Value

namespace TemplateGate.Toml

open Text

/-- A parser of a piece of text: what it found, and what comes behind it. -/
abbrev Step (α : Type) := List Char → Option (α × List Char)

/-! ## Moments -/

/-- A date. -/
def date? : Step (Nat × Nat × Nat) := fun cs => do
  let (year, cs) ← Timestamp.digits? 4 0 cs
  let (month, cs) ← Timestamp.digits? 2 0 (← Timestamp.behind? '-' cs)
  let (day, cs) ← Timestamp.digits? 2 0 (← Timestamp.behind? '-' cs)
  if dateExists year month day then some ((year, month, day), cs) else none

/-- The digits behind the point of a time of day; those beyond the ninth are dropped. -/
def places? : Step (Option (List Char))
  | '.' :: rest =>
      let digits := rest.takeWhile Char.isDigit
      if digits.isEmpty then none
      else some (some (digits.take 9), rest.dropWhile Char.isDigit)
  | rest => some (none, rest)

/-- The seconds of a time of day, with the digits behind the point. -/
def seconds? : Step (Option Nat × Option (List Char))
  | ':' :: cs => do
      let (second, cs) ← Timestamp.digits? 2 0 cs
      let (fraction, cs) ← places? cs
      if second ≤ 60 then some ((some second, fraction), cs) else none
  | cs => some ((none, none), cs)

/-- A time of day. -/
def clock? : Step Clock := fun cs => do
  let (hour, cs) ← Timestamp.digits? 2 0 cs
  let (minute, cs) ← Timestamp.digits? 2 0 (← Timestamp.behind? ':' cs)
  let ((second, fraction), cs) ← seconds? cs
  if hour < 24 ∧ minute < 60 then some (⟨hour, minute, second, fraction⟩, cs) else none

/-- The end of a moment: nothing, or an offset. -/
def offset? : List Char → Option (Option Offset)
  | [] => some none
  | ['Z'] => some (some .utc)
  | ['z'] => some (some .utc)
  | sign :: cs => do
      let (hours, cs) ← Timestamp.digits? 2 0 cs
      let (minutes, cs) ← Timestamp.digits? 2 0 (← Timestamp.behind? ':' cs)
      if cs = [] ∧ hours < 24 ∧ minutes < 60 ∧ (sign = '+' ∨ sign = '-') then
        some (some (.shifted (sign == '+') hours minutes))
      else none

/-- A moment that a whole run denotes. -/
def moment? (cs : List Char) : Option Moment :=
  match date? cs with
  | some ((year, month, day), []) => some (.date year month day)
  | some ((year, month, day), mark :: rest) => do
      guard (mark = 'T' ∨ mark = 't' ∨ mark = ' ')
      let (clock, rest) ← clock? rest
      some (.dateTime year month day clock (← offset? rest))
  | none =>
      match clock? cs with
      | some (clock, []) => some (.time clock)
      | _ => none

/-! ## Any of them -/

/-- The value of a run. -/
def scalar? (cs : List Char) : Option Value :=
  if cs = ['t', 'r', 'u', 'e'] then some (.boolean true)
  else if cs = ['f', 'a', 'l', 's', 'e'] then some (.boolean false)
  else ((Numeral.ofRun? cs).map .number).or ((moment? cs).map .moment)

/-- Whether a character ends a run. -/
def endsRun (c : Char) : Bool :=
  c == '\n' || c == '\r' || c == '#' || c == ',' || c == '=' || c == '[' || c == ']' ||
    c == '\x7b' || c == '\x7d'

/-- Whether a character is a blank within a line. -/
def isSpace (c : Char) : Bool := c == ' ' || c == '\t'

/-- Whether a run goes on behind a blank: something follows the blanks,
and it starts neither a string nor with a point. -/
def goesOn (cs : List Char) : Bool :=
  (cs.dropWhile isSpace).head?.any fun c => !(endsRun c || c == '.' || c == '"' || c == '\'')

/-- The run at the start of a text, and what is behind it. -/
def run : List Char → List Char × List Char
  | [] => ([], [])
  | c :: rest =>
      if endsRun c || isSpace c && !goesOn rest then ([], c :: rest)
      else let (cs, rest) := run rest; (c :: cs, rest)

end TemplateGate.Toml
