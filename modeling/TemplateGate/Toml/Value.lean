/-
# `Toml.Value` — the values of a TOML document

Tables keep their entries in the order in which they were defined.  A
number is kept as its numeral, from which perhaps none can be read; a
value `isReadable` if no such numeral is in it.  A moment is a date, a
time of day or both, possibly with an offset from UTC.
-/
import TemplateGate.Toml.Numeral

namespace TemplateGate.Toml

open Text

/-- A time of day; seconds and their fraction may be left out. -/
structure Clock where
  hour : Nat
  minute : Nat
  second : Option Nat
  /-- The digits behind the point, at most nine of them. -/
  fraction : Option (List Char)
  deriving DecidableEq, Repr

/-- An offset from UTC. -/
inductive Offset where
  | utc
  /-- Hours and minutes ahead of UTC, or behind it. -/
  | shifted (ahead : Bool) (hours minutes : Nat)
  deriving DecidableEq, Repr

/-- A date, a time of day, or both. -/
inductive Moment where
  | date (year month day : Nat)
  | time (clock : Clock)
  | dateTime (year month day : Nat) (clock : Clock) (offset : Option Offset)
  deriving DecidableEq, Repr

/-- A value. -/
inductive Value where
  | string (text : String)
  | number (numeral : Numeral)
  | boolean (value : Bool)
  | moment (value : Moment)
  | array (items : List Value)
  | table (entries : List (String × Value))
  deriving Repr

/-! ## Reading everything -/

mutual

/-- Whether every number in a value can be read. -/
def Value.isReadable : Value → Bool
  | .number n => n.denotes
  | .array items => areReadable items
  | .table entries => entriesAreReadable entries
  | _ => true

/-- Whether every number in a list of values can be read. -/
def areReadable : List Value → Bool
  | [] => true
  | v :: rest => v.isReadable && areReadable rest

/-- Whether every number in the values of entries can be read. -/
def entriesAreReadable : List (String × Value) → Bool
  | [] => true
  | (_, v) :: rest => v.isReadable && entriesAreReadable rest

end

/-! ## The text of a moment -/

/-- A date. -/
def printDate (year month day : Nat) : List Char :=
  padded 4 year ++ '-' :: (padded 2 month ++ '-' :: padded 2 day)

/-- The digits of a fraction without the zeros at the end, but at least one. -/
def printPlaces (places : List Char) : List Char :=
  let kept := (places.reverse.dropWhile (· == '0')).reverse
  if kept.isEmpty then ['0'] else kept

/-- A time of day. -/
def Clock.print (c : Clock) : List Char :=
  padded 2 c.hour ++ ':' :: padded 2 c.minute ++
    (c.second.elim [] fun s => ':' :: padded 2 s) ++
    (c.fraction.elim [] fun places => '.' :: printPlaces places)

/-- An offset; one of no minutes counts as ahead. -/
def Offset.print : Offset → List Char
  | .utc => ['Z']
  | .shifted ahead hours minutes =>
      (if ahead || hours == 0 && minutes == 0 then '+' else '-') ::
        (padded 2 hours ++ ':' :: padded 2 minutes)

/-- A moment, with a `T` between date and time. -/
def Moment.print : Moment → List Char
  | .date year month day => printDate year month day
  | .time clock => clock.print
  | .dateTime year month day clock offset =>
      printDate year month day ++ 'T' :: (clock.print ++ offset.elim [] Offset.print)

/-- The text of a moment. -/
def Moment.toText (m : Moment) : String := String.ofList m.print

end TemplateGate.Toml
