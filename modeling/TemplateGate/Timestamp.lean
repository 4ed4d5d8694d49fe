/-
# `Timestamp` — points in time as reports write them

The dialect of RFC 3339 that reports use: four digits of year, an offset
of whole minutes or `Z`, and a fraction of at most nine digits with no
zeros at its end.  Reading is wider than writing in four places.  Any
ASCII character may stand between date and time; `z` is `Z`; digits of
the fraction beyond the ninth are ignored; and second 60 is accepted
where a leap second can be, at the end of a month in UTC, and read as the
last nanosecond before it.

A timestamp keeps the offset it was written with.  Two of them are equal
as times when they denote the same `instant`.
-/
import TemplateGate.Text.Basic

namespace TemplateGate

open Text

/-- Whether a year of the Gregorian calendar has a February 29. -/
def isLeapYear (year : Nat) : Bool := year % 4 == 0 && (year % 100 != 0 || year % 400 == 0)

/-- The number of days of a month. -/
def daysInMonth (year month : Nat) : Nat :=
  if month = 2 then (if isLeapYear year then 29 else 28)
  else if month = 4 ∨ month = 6 ∨ month = 9 ∨ month = 11 then 30
  else 31

/-- Whether a date exists in the Gregorian calendar, from year 0 to year 9999. -/
def dateExists (year month day : Nat) : Bool :=
  year ≤ 9999 && 1 ≤ month && month ≤ 12 && 1 ≤ day && day ≤ daysInMonth year month

/-- A point in time, on the clock of some offset from UTC in minutes. -/
structure Timestamp where
  year : Nat
  month : Nat
  day : Nat
  hour : Nat
  minute : Nat
  second : Nat
  nanosecond : Nat
  offset : Int
  valid : dateExists year month day = true ∧ hour < 24 ∧ minute < 60 ∧ second < 60 ∧
    nanosecond < 1000000000 ∧ offset.natAbs < 24 * 60
  deriving DecidableEq, Repr

namespace Timestamp

/-- Midnight on 1 January 1970, UTC. -/
def epoch : Timestamp := ⟨1970, 1, 1, 0, 0, 0, 0, 0, by decide⟩

instance : Inhabited Timestamp := ⟨epoch⟩

/-- The number of days before a year, counted from 1 January of year 0. -/
def daysBeforeYear : Nat → Nat
  | 0 => 0
  | year + 1 => 366 + year * 365 + year / 4 - year / 100 + year / 400

/-- The number of days before a month, in a given year. -/
def daysBeforeMonth (year : Nat) : (month : Nat) → Nat
  | 0 => 0
  | 1 => 0
  | month + 2 => daysBeforeMonth year (month + 1) + daysInMonth year (month + 1)

/-- The minutes since the beginning of year 0, UTC. -/
def utcMinutes (t : Timestamp) : Int :=
  (((daysBeforeYear t.year + daysBeforeMonth t.year t.month + (t.day - 1)) * 24 + t.hour) * 60
    + t.minute : Nat) - t.offset

/-- The nanoseconds since the beginning of year 0, UTC. -/
def instant (t : Timestamp) : Int :=
  (t.utcMinutes * 60 + t.second) * 1000000000 + t.nanosecond

/-! ## Clocks -/

/-- The timestamp with the given parts, if they are in range. -/
def ofParts? (year month day hour minute second nanosecond : Nat) (offset : Int) :
    Option Timestamp :=
  if h : dateExists year month day = true ∧ hour < 24 ∧ minute < 60 ∧ second < 60 ∧
      nanosecond < 1000000000 ∧ offset.natAbs < 24 * 60 then
    some ⟨year, month, day, hour, minute, second, nanosecond, offset, h⟩
  else none

/-- The last of the numbers below a bound that satisfies a predicate, or zero. -/
def lastBelow (bound : Nat) (holds : Nat → Bool) : Nat :=
  ((List.range bound).reverse.find? holds).getD 0

/-- The point in time, in UTC, that many nanoseconds after the epoch; the
epoch itself for what lies beyond year 9999. -/
def ofUnixNanoseconds (n : Nat) : Timestamp :=
  let seconds := n / 1000000000
  let days := seconds / 86400 + daysBeforeYear 1970
  let year := lastBelow 10000 fun y => daysBeforeYear y ≤ days
  let dayOfYear := days - daysBeforeYear year
  let month := lastBelow 13 fun m => m != 0 && daysBeforeMonth year m ≤ dayOfYear
  let ofDay := seconds % 86400
  (ofParts? year month (dayOfYear - daysBeforeMonth year month + 1) (ofDay / 3600)
    (ofDay / 60 % 60) (ofDay % 60) (n % 1000000000) 0).getD epoch

/-! ## Writing -/

/-- The digits of a fraction of a second without the zeros at the end. -/
def fractionDigits (nanosecond : Nat) : List Char :=
  ((padded 9 nanosecond).reverse.dropWhile (· == '0')).reverse

/-- The fraction with its point; nothing if it is zero. -/
def printFraction (nanosecond : Nat) : List Char :=
  if nanosecond = 0 then [] else '.' :: fractionDigits nanosecond

/-- An offset: `Z` if it is zero, otherwise hours and minutes with a sign. -/
def printOffset (offset : Int) : List Char :=
  if offset = 0 then ['Z']
  else (if offset < 0 then '-' else '+') ::
    (padded 2 (offset.natAbs / 60) ++ ':' :: padded 2 (offset.natAbs % 60))

/-- The characters of a timestamp. -/
def print (t : Timestamp) : List Char :=
  padded 4 t.year ++ '-' :: (padded 2 t.month ++ '-' :: (padded 2 t.day ++ 'T' ::
    (padded 2 t.hour ++ ':' :: (padded 2 t.minute ++ ':' :: (padded 2 t.second ++
      (printFraction t.nanosecond ++ printOffset t.offset))))))

/-- The text of a timestamp. -/
def toText (t : Timestamp) : String := String.ofList t.print

/-! ## Reading -/

/-- A number of exactly `width` decimal digits. -/
def digits? : (width : Nat) → (acc : Nat) → List Char → Option (Nat × List Char)
  | 0, acc, rest => some (acc, rest)
  | width + 1, acc, c :: rest => do digits? width (acc * 10 + (← digitValue? c)) rest
  | _ + 1, _, [] => none

/-- The rest behind one given character. -/
def behind? (c : Char) : List Char → Option (List Char)
  | d :: rest => if d = c then some rest else none
  | [] => none

/-- The rest behind one character of ASCII. -/
def behindAscii? : List Char → Option (List Char)
  | c :: rest => if c.toNat < 128 then some rest else none
  | [] => none

/-- The nanoseconds of the digits of a fraction; those beyond the ninth are ignored. -/
def nanoseconds (places : List Char) : Nat :=
  readNumeral ((places ++ List.replicate 9 '0').take 9)

/-- A fraction of a second, if there is one; at least one digit follows its point. -/
def fraction? : List Char → Option (Nat × List Char)
  | '.' :: rest =>
      let places := rest.takeWhile Char.isDigit
      if places.isEmpty then none
      else some (nanoseconds places, rest.dropWhile Char.isDigit)
  | rest => some (0, rest)

/-- An offset at the end of a text, in minutes. -/
def offset? : List Char → Option Int
  | ['Z'] => some 0
  | ['z'] => some 0
  | sign :: rest => do
      let (hours, rest) ← digits? 2 0 rest
      let (minutes, rest) ← digits? 2 0 (← behind? ':' rest)
      guard (rest = [] ∧ hours ≤ 23 ∧ minutes ≤ 59)
      let size : Int := (hours * 60 + minutes : Nat)
      if sign = '+' then some size else if sign = '-' then some (-size) else none
  | [] => none

/-- The minutes from the beginning of year 0 to the first minute of a month. -/
def monthStart (year month : Nat) : Nat :=
  (daysBeforeYear year + daysBeforeMonth year month) * 24 * 60

/-- Whether a leap second can follow: the next minute is the first of a
month in UTC.  An offset is shorter than a day, so the month is one of
the year on the clock or the first of the next. -/
def endsMonth (t : Timestamp) : Bool :=
  (List.range 12).any (fun month => t.utcMinutes + 1 == monthStart t.year (month + 1)) ||
    t.utcMinutes + 1 == monthStart (t.year + 1) 1

/-- The timestamp of its parts as written, where second 60 stands for a leap second. -/
def ofWritten? (year month day hour minute second nanosecond : Nat) (offset : Int) :
    Option Timestamp :=
  if second = 60 then
    (ofParts? year month day hour minute 59 999999999 offset).filter endsMonth
  else ofParts? year month day hour minute second nanosecond offset

/-- The timestamp that a list of characters denotes. -/
def read? (cs : List Char) : Option Timestamp := do
  let (year, cs) ← digits? 4 0 cs
  let (month, cs) ← digits? 2 0 (← behind? '-' cs)
  let (day, cs) ← digits? 2 0 (← behind? '-' cs)
  let (hour, cs) ← digits? 2 0 (← behindAscii? cs)
  let (minute, cs) ← digits? 2 0 (← behind? ':' cs)
  let (second, cs) ← digits? 2 0 (← behind? ':' cs)
  let (nanosecond, cs) ← fraction? cs
  ofWritten? year month day hour minute second nanosecond (← offset? cs)

/-- The timestamp that a text denotes. -/
def ofText? (s : String) : Option Timestamp := read? s.toList

end Timestamp

end TemplateGate
