/-
# `Toml.Quoted` — strings, bare keys, and what may stand in a comment

Four kinds of strings exist: between double quotation marks escapes are
undone, between single ones nothing is; and either mark three times over
opens a string that may go over several lines, drops a line end right
behind its opening, and may end in two marks more than its closing.
Line ends within a string are kept as they are written.

No character below U+0020 except the tab may stand anywhere, nor may
U+007F.  Lines end in a line feed, or in a carriage return and one.
-/
import TemplateGate.Toml.Scalar

namespace TemplateGate.Toml

open Text

/-- Whether a character may stand in a string or a comment. -/
def isPrintable (c : Char) : Bool := c == '\t' || (0x20 ≤ c.toNat && c.toNat != 0x7F)

/-- Whether a character may stand in a bare key. -/
def isBare (c : Char) : Bool := c.isAlphanum || c == '-' || c == '_'

/-- The character that a number of hexadecimal digits at the start of a text denotes. -/
def codePoint? (width : Nat) : Step Char := fun cs => do
  let digits := cs.take width
  let n ← readHex? digits
  if digits.length = width ∧ n.isValidChar then some (Char.ofNat n, cs.drop width) else none

/-- The character of an escape, from behind its backslash. -/
def escape? : Step Char
  | 'b' :: rest => some ('\x08', rest)
  | 't' :: rest => some ('\t', rest)
  | 'n' :: rest => some ('\n', rest)
  | 'f' :: rest => some ('\x0c', rest)
  | 'r' :: rest => some ('\r', rest)
  | 'e' :: rest => some ('\x1b', rest)
  | '"' :: rest => some ('"', rest)
  | '\\' :: rest => some ('\\', rest)
  | 'x' :: rest => codePoint? 2 rest
  | 'u' :: rest => codePoint? 4 rest
  | 'U' :: rest => codePoint? 8 rest
  | _ => none

/-- A line end, if one is here. -/
def lineEnd? : Step (List Char)
  | '\n' :: rest => some (['\n'], rest)
  | '\r' :: '\n' :: rest => some (['\r', '\n'], rest)
  | _ => none

/-- The text behind a line end, if one is here. -/
def behindLineEnd? (cs : List Char) : Option (List Char) := (lineEnd? cs).map (·.2)

/-- A character in front of a string, if there is a string. -/
def prepend (c : Char) : Option (List Char × List Char) → Option (List Char × List Char)
  | some (cs, rest) => some (c :: cs, rest)
  | none => none

/-- Characters in front of a string, if there is a string. -/
def prependAll (before : List Char) (found : Option (List Char × List Char)) :
    Option (List Char × List Char) :=
  before.foldr prepend found

/-- The rest of a string of one line between single quotation marks. -/
def literal? : Step (List Char)
  | [] => none
  | '\'' :: rest => some ([], rest)
  | c :: rest => if isPrintable c then prepend c (literal? rest) else none

/-- The rest of a string of one line between double quotation marks, as
far as the fuel reaches. -/
def basicWithin? : Nat → Step (List Char)
  | 0, _ => none
  | _, [] => none
  | _, '"' :: rest => some ([], rest)
  | fuel + 1, '\\' :: rest => do
      let (c, rest) ← escape? rest
      prepend c (basicWithin? fuel rest)
  | fuel + 1, c :: rest => if isPrintable c then prepend c (basicWithin? fuel rest) else none

/-- The rest of a string of one line between double quotation marks. -/
def basic? : Step (List Char) := fun cs => basicWithin? cs.length cs

/-- The end of a string of several lines, if it is here: up to two marks
that belong to the string, and three that close it. -/
def closing? (mark : Char) (cs : List Char) : Option (List Char × List Char) :=
  let marks := (cs.takeWhile (· == mark)).take 5
  if marks.length < 3 then none
  else some (marks.drop 3, cs.drop marks.length)

/-- The rest of a string of several lines between single quotation marks. -/
def literalLinesWithin? : Nat → Step (List Char)
  | 0, _ => none
  | fuel + 1, cs =>
      match closing? '\'' cs with
      | some result => some result
      | none =>
          match lineEnd? cs, cs with
          | some (lineEnd, rest), _ => prependAll lineEnd (literalLinesWithin? fuel rest)
          | none, c :: rest =>
              if isPrintable c then prepend c (literalLinesWithin? fuel rest) else none
          | none, [] => none

/-- What comes behind a backslash at the end of a line: everything up to
the next character that is neither blank nor line end. -/
def behindContinuation? (cs : List Char) : Option (List Char) := do
  let rest ← behindLineEnd? (cs.dropWhile isSpace)
  some (skipLines rest.length rest)
where
  /-- The text behind blanks and line ends. -/
  skipLines : Nat → List Char → List Char
    | 0, cs => cs
    | fuel + 1, cs =>
        match behindLineEnd? (cs.dropWhile isSpace) with
        | some rest => skipLines fuel rest
        | none => cs.dropWhile isSpace

/-- The rest of a string of several lines between double quotation marks. -/
def basicLinesWithin? : Nat → Step (List Char)
  | 0, _ => none
  | fuel + 1, cs =>
      match closing? '"' cs with
      | some result => some result
      | none =>
          match lineEnd? cs, cs with
          | some (lineEnd, rest), _ => prependAll lineEnd (basicLinesWithin? fuel rest)
          | none, '\\' :: rest =>
              match behindContinuation? rest with
              | some rest => basicLinesWithin? fuel rest
              | none => do
                  let (c, rest) ← escape? rest
                  prepend c (basicLinesWithin? fuel rest)
          | none, c :: rest =>
              if isPrintable c then prepend c (basicLinesWithin? fuel rest) else none
          | none, [] => none

/-- A string of several lines, from behind its opening marks. -/
def lines? (within : Nat → Step (List Char)) : Step (List Char) := fun cs =>
  let cs := (behindLineEnd? cs).getD cs
  within (cs.length + 1) cs

/-- A string of any kind. -/
def string? : Step String := fun cs =>
  let found := match cs with
    | '"' :: '"' :: '"' :: rest => lines? basicLinesWithin? rest
    | '\'' :: '\'' :: '\'' :: rest => lines? literalLinesWithin? rest
    | '"' :: rest => basic? rest
    | '\'' :: rest => literal? rest
    | _ => none
  found.map fun (text, rest) => (String.ofList text, rest)

/-- One part of a key: bare, or a string of one line. -/
def keyPart? : Step String := fun cs =>
  match cs with
  | '"' :: rest => (basic? rest).map fun (text, rest) => (String.ofList text, rest)
  | '\'' :: rest => (literal? rest).map fun (text, rest) => (String.ofList text, rest)
  | cs =>
      let bare := cs.takeWhile isBare
      if bare.isEmpty then none else some (String.ofList bare, cs.dropWhile isBare)

/-- The parts of a key after the first, each behind a point; blanks may
stand around the points. -/
def moreKeyParts? : Nat → Step (List String)
  | 0, cs => some ([], cs)
  | fuel + 1, cs =>
      match cs.dropWhile isSpace with
      | '.' :: rest => do
          let (part, rest) ← keyPart? (rest.dropWhile isSpace)
          let (parts, rest) ← moreKeyParts? fuel rest
          some (part :: parts, rest)
      | _ => some ([], cs)

/-- How many parts a key may have. -/
def maxKeyParts : Nat := 80

/-- A key, as the parts of its path. -/
def key? : Step (List String) := fun cs => do
  let (part, rest) ← keyPart? (cs.dropWhile isSpace)
  let (parts, rest) ← moreKeyParts? rest.length rest
  guard (parts.length < maxKeyParts)
  some (part :: parts, rest)

/-- The text behind a comment, if one is here; `none` if it holds a
character that no comment may. -/
def behindComment? (cs : List Char) : Option (List Char) :=
  match cs with
  | '#' :: rest =>
      let rest' := rest.dropWhile isPrintable
      if rest'.isEmpty ∨ (behindLineEnd? rest').isSome then some rest' else none
  | cs => some cs

end TemplateGate.Toml
