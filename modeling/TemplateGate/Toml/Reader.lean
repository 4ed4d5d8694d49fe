/-
# `Toml.Reader` — from the text of a document to its table

A document is a list of lines, each with a header, an entry or nothing,
and perhaps a comment.  Values may be nested to a depth of eighty; the
bound is the recursion argument.  Blanks, line ends and comments are free
between the items of an array and within a table in braces, except inside
a key, and both may end in a comma.  Between the key and the value of an
entry on a line of its own only blanks are.
-/
import TemplateGate.Toml.Quoted
import TemplateGate.Toml.Table

namespace TemplateGate.Toml

open Text

/-- The text behind blanks, line ends and comments, as far as the fuel
reaches; `none` if a comment holds a character that no comment may. -/
def behindFiller? : Nat → List Char → Option (List Char)
  | 0, cs => some cs
  | fuel + 1, cs =>
      match cs.dropWhile isSpace with
      | '#' :: rest => do behindFiller? fuel (← behindComment? ('#' :: rest))
      | rest =>
          match behindLineEnd? rest with
          | some rest => behindFiller? fuel rest
          | none => some rest

/-- The text behind all blanks, line ends and comments. -/
def afterFiller? (cs : List Char) : Option (List Char) := behindFiller? (cs.length + 1) cs

/-- Items separated by commas up to a closing mark, a comma before which
is allowed. -/
def itemsWithin? {α : Type} (item : Step α) (close : Char) : Nat → Step (List α)
  | 0, _ => none
  | fuel + 1, cs => do
      match ← afterFiller? cs with
      | [] => none
      | c :: rest =>
          if c = close then some ([], rest)
          else do
            let (a, rest) ← item (c :: rest)
            match ← afterFiller? rest with
            | [] => none
            | c :: rest =>
                if c = close then some ([a], rest)
                else if c = ',' then do
                  let (as, rest) ← itemsWithin? item close fuel rest
                  some (a :: as, rest)
                else none

/-- Items separated by commas up to a closing mark. -/
def items? {α : Type} (item : Step α) (close : Char) : Step (List α) := fun cs =>
  itemsWithin? item close cs.length cs

/-- A key, an equals sign and a value; `behindGap?` passes over what may
stand around the equals sign. -/
def keyValue? (behindGap? : List Char → Option (List Char)) (value : Step Value) :
    Step (List String × String × Value) := fun cs => do
  let (parts, rest) ← key? cs
  let (path, key) ← lastPart? parts
  match ← behindGap? rest with
  | '=' :: rest => do
      let (v, rest) ← value (← behindGap? rest)
      some ((path, key, v), rest)
  | _ => none

/-- A value without brackets or braces. -/
def plain? : Step Value := fun cs =>
  match cs with
  | '"' :: _ => (string? cs).map fun (s, rest) => (.string s, rest)
  | '\'' :: _ => (string? cs).map fun (s, rest) => (.string s, rest)
  | cs => (scalar? (run cs).1).map fun v => (v, (run cs).2)

/-- A value with at most `depth` levels of brackets and braces. -/
def value? (depth : Nat) : Step Value := fun cs =>
  match cs, depth with
  | '[' :: _, 0 => none
  | '\x7b' :: _, 0 => none
  | '[' :: rest, depth + 1 =>
      (items? (value? depth) ']' rest).map fun (vs, rest) => (.array vs, rest)
  | '\x7b' :: rest, depth + 1 => do
      let (entries, rest) ← items? (keyValue? afterFiller? (value? depth)) '\x7d' rest
      some (← inlineTable? entries, rest)
  | cs, _ => plain? cs

/-- How deeply values may be nested. -/
def maxDepth : Nat := 80

/-- The statement on a line that holds one. -/
def statement? : Step Statement := fun cs =>
  match cs with
  | '[' :: '[' :: rest => do
      let (parts, rest) ← key? rest
      let (path, key) ← lastPart? parts
      match rest.dropWhile isSpace with
      | ']' :: ']' :: rest => some (.seriesHeader path key, rest)
      | _ => none
  | '[' :: rest => do
      let (parts, rest) ← key? rest
      let (path, key) ← lastPart? parts
      match rest.dropWhile isSpace with
      | ']' :: rest => some (.header path key, rest)
      | _ => none
  | cs => do
      let ((path, key, v), rest) ←
        keyValue? (fun rest => some (rest.dropWhile isSpace)) (value? maxDepth) cs
      some (.entry path key v, rest)

/-- The text behind the end of a line: blanks, perhaps a comment, and a
line end or the end of the text. -/
def behindLine? (cs : List Char) : Option (List Char) := do
  let rest ← behindComment? (cs.dropWhile isSpace)
  match rest with
  | [] => some []
  | rest => behindLineEnd? rest

/-- The statements of a text, as far as the fuel reaches. -/
def statementsWithin? : Nat → List Char → Option (List Statement)
  | 0, cs => if cs.isEmpty then some [] else none
  | fuel + 1, cs => do
      match ← afterFiller? cs with
      | [] => some []
      | rest => do
          let (s, rest) ← statement? rest
          let rest ← behindLine? rest
          let more ← statementsWithin? fuel rest
          some (s :: more)

/-- The text without a byte order mark at its start. -/
def withoutMark : List Char → List Char
  | '\uFEFF' :: rest => rest
  | cs => cs

/-- The table that a text denotes. -/
def parse? (text : String) : Option (List (String × Value)) := do
  let cs := withoutMark text.toList
  Draft.ofStatements? (← statementsWithin? (cs.length + 1) cs)

end TemplateGate.Toml
