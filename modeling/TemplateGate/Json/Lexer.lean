/-
# `Json.Lexer` — from characters to tokens

White space between tokens is the space, the tab, the line feed and the
carriage return.  Strings hold no character below U+0020; an escape of
four hexadecimal digits stands for a UTF-16 code unit, and two of them
may form a surrogate pair.  Numbers have no leading zeros and at least
one digit after a point and in an exponent.

An integer of at most 64 bits stays one, `-0` excepted.  For every other
number the digits are gathered in 64 bits: the digits before the point
that no longer fit raise the exponent, those after it are dropped.  See
`Decimal.Double` for the rest of that rule.
-/
import TemplateGate.Json.Token
import TemplateGate.Text.Basic
import TemplateGate.Text.Utf8

namespace TemplateGate.Json

open Decimal Text

/-- The white space of a JSON text. -/
def isLayout (c : Char) : Bool := c == ' ' || c == '\t' || c == '\n' || c == '\r'

/-! ## Strings -/

/-- What a string is made of: characters, and escaped UTF-16 code units. -/
inductive Piece where
  | plain (c : Char)
  | unit (value : Nat)
  deriving DecidableEq, Repr

/-- How the pieces of a string come to an end. -/
inductive StringEnd where
  /-- With a quotation mark; the characters behind it. -/
  | closed (rest : List Char)
  | cut (fault : Fault)
  deriving DecidableEq, Repr

/-- The character of an escape with a letter. -/
def letterEscape? : Char → Option Char
  | '"' => some '"'
  | '\\' => some '\\'
  | '/' => some '/'
  | 'b' => some '\x08'
  | 'f' => some '\x0c'
  | 'n' => some '\n'
  | 'r' => some '\r'
  | 't' => some '\t'
  | _ => none

/-- Why four hexadecimal digits cannot be read here: with fewer than four
bytes left the text is cut short. -/
def hexFault (rest : List Char) : Fault :=
  if 4 ≤ utf8Length rest then .malformed else .cutShort

/-- The pieces of a string, from behind its opening quotation mark. -/
def pieces : List Char → List Piece × StringEnd
  | [] => ([], .cut .cutShort)
  | '"' :: rest => ([], .closed rest)
  | '\\' :: [] => ([], .cut .cutShort)
  | '\\' :: 'u' :: a :: b :: c :: d :: rest =>
      match readHex? [a, b, c, d] with
      | some n => let (ps, e) := pieces rest; (.unit n :: ps, e)
      | none => ([], .cut (hexFault (a :: b :: c :: d :: rest)))
  | '\\' :: 'u' :: rest => ([], .cut (hexFault rest))
  | '\\' :: letter :: rest =>
      match letterEscape? letter with
      | some c => let (ps, e) := pieces rest; (.plain c :: ps, e)
      | none => ([], .cut .malformed)
  | c :: rest =>
      if c.toNat < 0x20 then ([], .cut .malformed)
      else let (ps, e) := pieces rest; (.plain c :: ps, e)

/-- Whether a code unit is the first half of a surrogate pair. -/
def isHighSurrogate (n : Nat) : Bool := 0xD800 ≤ n && n < 0xDC00

/-- Whether a code unit is the second half of a surrogate pair. -/
def isLowSurrogate (n : Nat) : Bool := 0xDC00 ≤ n && n < 0xE000

/-- The characters of the pieces, surrogate pairs joined; `none` if a
surrogate stands alone.  At the end of a string that was cut off a first
half may still be waiting for its second. -/
def joinPieces (closed : Bool) : List Piece → Option (List Char)
  | [] => some []
  | .plain c :: rest => (joinPieces closed rest).map (c :: ·)
  | .unit n :: rest =>
      if isHighSurrogate n then
        match rest with
        | .unit m :: rest =>
            if isLowSurrogate m then
              (joinPieces closed rest).map
                (Char.ofNat ((n - 0xD800) * 0x400 + (m - 0xDC00) + 0x10000) :: ·)
            else none
        | .plain _ :: _ => none
        | [] => if closed then none else some []
      else if isLowSurrogate n then none
      else (joinPieces closed rest).map (Char.ofNat n :: ·)

/-- The token of a string and the characters behind it, if it ends. -/
def stringToken (cs : List Char) : Token × Option (List Char) :=
  match pieces cs with
  | (ps, .closed rest) =>
      (.string ((joinPieces true ps).elim (.error .malformed) fun text => .ok (String.ofList text))
        (.ok ()), some rest)
  | (ps, .cut fault) =>
      (.string (.error ((joinPieces false ps).elim .malformed fun _ => fault)) (.error fault), none)

/-! ## Numbers -/

/-- The least number that does not fit 64 bits. -/
def wordLimit : Nat := 18446744073709551616

/-- Gathers decimal digits in 64 bits, up to the first one that does not fit. -/
def gather (significand : Nat) : List Char → Nat × List Char
  | [] => (significand, [])
  | c :: rest =>
      let next := significand * 10 + (c.toNat - '0'.toNat)
      if next < wordLimit then gather next rest else (significand, c :: rest)

/-- The number with the given digits before and after the point and the
given exponent; `none` beyond the range of binary64. -/
def numberOf (negative : Bool) (whole : List Char) (places : Option (List Char))
    (exponent : Option Int) : Option Number :=
  let (significand, excess) := gather 0 whole
  match places, exponent, excess with
  | none, none, [] =>
      let value : Int := if negative then -significand else significand
      match if negative ∧ significand = 0 then none else Number.ofInt? value with
      | some number => some number
      | none => (Double.ofDecimal? negative significand 0).map .double
  | _, _, _ =>
      let digits := places.getD []
      let (significand, dropped) := gather significand digits
      (Double.ofDecimal? negative significand
        (excess.length - (digits.length - dropped.length) + exponent.getD 0)).map .double

/-- A number that breaks off: a reader that passes over numbers does not
tell the end of the text from a wrong character. -/
def brokenNumber (rest : List Char) : Token × Option (List Char) :=
  (.broken (if rest.isEmpty then .cutShort else .malformed) .malformed, none)

/-- The exponent of a numeral: `none` if there is none, and otherwise its
value, or the characters at which its digits were missing. -/
def exponentPart (cs : List Char) : Option (Except (List Char) (Int × List Char)) :=
  match cs with
  | [] => none
  | c :: rest =>
      if c = 'e' ∨ c = 'E' then
        let negative := rest.head? = some '-'
        let unsigned := if rest.head? = some '-' ∨ rest.head? = some '+' then rest.tail else rest
        match unsigned.span Char.isDigit with
        | ([], rest) => some (.error rest)
        | (digits, rest) =>
            let n := readNumeral digits
            some (.ok (if negative then -n else n, rest))
      else none

/-- The token of a number, from behind its sign. -/
def numberToken (negative : Bool) (cs : List Char) : Token × Option (List Char) :=
  match cs.span Char.isDigit with
  | ([], rest) => brokenNumber rest
  | ('0' :: _ :: _, _) => (.broken .malformed .malformed, none)
  | (whole, rest) =>
      let finish (places : Option (List Char)) (rest : List Char) :=
        match exponentPart rest with
        | none => (Token.number (numberOf negative whole places none), some rest)
        | some (.error rest) => brokenNumber rest
        | some (.ok (exponent, rest)) =>
            (Token.number (numberOf negative whole places (some exponent)), some rest)
      match rest with
      | '.' :: rest =>
          match rest.span Char.isDigit with
          | ([], rest) => brokenNumber rest
          | (places, rest) => finish (some places) rest
      | rest => finish none rest

/-! ## Tokens -/

/-- The token of a word such as `true`, of which `expected` is still to come. -/
def wordToken (token : Token) : List Char → List Char → Token × Option (List Char)
  | [], rest => (token, some rest)
  | _ :: _, [] => (.broken .cutShort .cutShort, none)
  | e :: expected, c :: rest =>
      if e = c then wordToken token expected rest else (.broken .malformed .malformed, none)

/-- The token that starts with a given character. -/
def tokenAt (c : Char) (rest : List Char) : Token × Option (List Char) :=
  match c with
  | '[' => (.openArray, some rest)
  | ']' => (.closeArray, some rest)
  | '{' => (.openObject, some rest)
  | '}' => (.closeObject, some rest)
  | ',' => (.comma, some rest)
  | ':' => (.colon, some rest)
  | '"' => stringToken rest
  | 'n' => wordToken .null ['u', 'l', 'l'] rest
  | 't' => wordToken (.boolean true) ['r', 'u', 'e'] rest
  | 'f' => wordToken (.boolean false) ['a', 'l', 's', 'e'] rest
  | '-' => numberToken true rest
  | c => if c.isDigit then numberToken false (c :: rest) else (.broken .malformed .malformed, none)

/-- The tokens of a text, as far as the fuel reaches. -/
def tokensWithin : Nat → List Char → List Token
  | 0, _ => []
  | _, [] => []
  | fuel + 1, c :: rest =>
      if isLayout c then tokensWithin fuel rest
      else match tokenAt c rest with
        | (token, some rest) => token :: tokensWithin fuel rest
        | (token, none) => [token]

/-- The tokens of a text.  Every token takes at least one character, so
its length is fuel enough. -/
def tokens (cs : List Char) : List Token := tokensWithin cs.length cs

end TemplateGate.Json
