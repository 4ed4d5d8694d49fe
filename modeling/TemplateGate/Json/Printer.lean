/-
# `Json.Printer` — the text of a value

One printer with two layouts: `pretty` breaks the line before every item
and member and indents by two spaces a level, `compact` puts no white
space anywhere.  Empty arrays and objects are `[]` and `{}` in both.

Strings escape the quotation mark, the backslash and the characters below
U+0020, five of them by a letter; nothing else is escaped.  A double is
written with the fewest digits that read back (`Decimal.Shortest`), with
a point as long as the exponent of its leading digit is between -5 and
15 and with an exponent, its sign included, beyond.
-/
import TemplateGate.Json.Value
import TemplateGate.Decimal.Shortest
import TemplateGate.Text.Basic

namespace TemplateGate.Json

open Decimal Text

/-- A character inside a string of a JSON text. -/
def escapeChar (c : Char) : List Char :=
  if c = '"' then ['\\', '"']
  else if c = '\\' then ['\\', '\\']
  else if c = '\n' then ['\\', 'n']
  else if c = '\r' then ['\\', 'r']
  else if c = '\t' then ['\\', 't']
  else if c.toNat = 8 then ['\\', 'b']
  else if c.toNat = 12 then ['\\', 'f']
  else if c.toNat < 0x20 then ['\\', 'u', '0', '0'] ++ hexPair c.toNat
  else [c]

/-- A string of a JSON text, quotation marks included. -/
def printString (s : String) : List Char :=
  '"' :: (s.toList.flatMap escapeChar ++ ['"'])

/-- A decimal numeral with a point: at least one digit on either side. -/
def printPoint (n : Numeral) : List Char :=
  let digits := n.digits
  match n.exponent with
  | .ofNat k => digits ++ List.replicate k '0' ++ ['.', '0']
  | .negSucc k =>
      let places := k + 1
      let padded := List.replicate (places + 1 - digits.length) '0' ++ digits
      padded.take (padded.length - places) ++ '.' :: padded.drop (padded.length - places)

/-- A decimal numeral with one digit before the point and an exponent. -/
def printExponent (n : Numeral) : List Char :=
  let exponent := n.leading
  let sign := if exponent < 0 then '-' else '+'
  let digits := match n.digits with
    | [] => []
    | [d] => [d]
    | d :: rest => d :: '.' :: rest
  digits ++ 'e' :: sign :: Nat.toDigits 10 exponent.natAbs

/-- The numeral of a double. -/
def printDouble (d : Double) : List Char :=
  let n := d.shortest
  let body := if -5 ≤ n.leading ∧ n.leading ≤ 15 then printPoint n else printExponent n
  if d.negative then '-' :: body else body

/-- The numeral of a number. -/
def printNumber : Number → List Char
  | .integer value _ => (signedNumeral value).toList
  | .double d => printDouble d

/-- What a layout puts between the tokens: a break before an item at a
level of nesting, and the gap after a colon. -/
structure Layout where
  breakAt : Nat → List Char
  gap : List Char

/-- No white space at all. -/
def Layout.compact : Layout := ⟨fun _ => [], []⟩

/-- One item a line, two spaces a level. -/
def Layout.pretty : Layout := ⟨fun level => '\n' :: List.replicate (2 * level) ' ', [' ']⟩

mutual

/-- A value at a level of nesting. -/
def print (l : Layout) (level : Nat) : Value → List Char
  | .null => ['n', 'u', 'l', 'l']
  | .boolean true => ['t', 'r', 'u', 'e']
  | .boolean false => ['f', 'a', 'l', 's', 'e']
  | .number n => printNumber n
  | .string s => printString s
  | .array [] => ['[', ']']
  | .array (v :: rest) =>
      '[' :: (l.breakAt (level + 1) ++ print l (level + 1) v ++
        printItems l (level + 1) rest ++ l.breakAt level ++ [']'])
  | .object [] => ['{', '}']
  | .object ((k, v) :: rest) =>
      '{' :: (l.breakAt (level + 1) ++ printString k ++ ':' :: (l.gap ++
        print l (level + 1) v ++ printMembers l (level + 1) rest ++ l.breakAt level ++ ['}']))

/-- The items after the first, each behind a comma. -/
def printItems (l : Layout) (level : Nat) : List Value → List Char
  | [] => []
  | v :: rest => ',' :: (l.breakAt level ++ print l level v ++ printItems l level rest)

/-- The members after the first, each behind a comma. -/
def printMembers (l : Layout) (level : Nat) : List (String × Value) → List Char
  | [] => []
  | (k, v) :: rest =>
      ',' :: (l.breakAt level ++ printString k ++ ':' :: (l.gap ++ print l level v ++
        printMembers l level rest))

end

/-- The text of a value without white space. -/
def Value.compact (v : Value) : String := String.ofList (print .compact 0 v)

/-- The text of a value, one item a line. -/
def Value.pretty (v : Value) : String := String.ofList (print .pretty 0 v)

end TemplateGate.Json
