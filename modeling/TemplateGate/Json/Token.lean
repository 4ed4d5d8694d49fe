/-
# `Json.Token` — the lexemes of a JSON text, and what can be wrong with one

A text is read in two steps, first into tokens and then by structure.
The reader stops at the first problem in reading order, so the list of
tokens is allowed to end in a `broken` one: whoever gets that far learns
what is wrong, and whoever stops earlier never does.

Two kinds of reader use the same tokens.  One builds the value; the other
only passes over a member that nobody asked for, and is content with
less: it accepts an escaped surrogate that stands alone and a number
beyond the range of binary64.  Tokens therefore carry both verdicts where
they differ.
-/
import TemplateGate.Json.Value

namespace TemplateGate.Json

/-- Why a text was refused. -/
inductive Fault where
  /-- The text ends inside a value, or holds none. -/
  | cutShort
  /-- The text is not JSON. -/
  | malformed
  /-- The text is JSON, but not of the shape asked for. -/
  | mistyped
  deriving DecidableEq, Repr

/-- The explanation of a fault. -/
def Fault.message : Fault → String
  | .cutShort => "the text ends inside a value"
  | .malformed => "the text is not JSON"
  | .mistyped => "the value has the wrong shape"

/-- A lexeme of a JSON text. -/
inductive Token where
  | openArray
  | closeArray
  | openObject
  | closeObject
  | comma
  | colon
  | null
  | boolean (value : Bool)
  /-- A number; `none` beyond the range of binary64. -/
  | number (value : Option Number)
  /-- A string: its text, or what is wrong with it, and what is wrong with
  it for a reader that only passes over it. -/
  | string (text : Except Fault String) (passed : Except Fault Unit)
  /-- No lexeme: what is wrong, for a reader and for one that passes over. -/
  | broken (fault passed : Fault)

end TemplateGate.Json
