/-
# `CommandLine.Arguments` — what the arguments of the program ask for

Options start with two dashes.  One that takes a value has it behind an
equals sign or as the next argument, which must not look like an option;
a lone dash does not.  Options and positional arguments may be mixed, and
behind two dashes alone everything is positional.  No option may be given
twice at one level, of which there are two: before the name of a
subcommand and behind it.  The log level may be given at both.

Arguments are judged one after the other, so a request for help or for
the version counts if nothing before it is wrong.
-/
import TemplateGate.Text.Basic

namespace TemplateGate.CommandLine

open Text

/-- The options of the subcommand `check`. -/
structure CheckOptions where
  template : String
  abbreviations : String
  config : String
  profile : Option String
  compiler : String
  reportOut : Option String
  markdownOut : Option String
  /-- The greatest number of annotations, if annotations are asked for. -/
  annotations : Option Nat
  deriving DecidableEq, Repr

/-- What the program is asked to do. -/
inductive Request where
  | check (options : CheckOptions)
  | explain (identifier : String)
  | schema (kind : String)
  | version
  | help
  deriving DecidableEq, Repr

/-- Why reading of the arguments stops early. -/
inductive Stop where
  | usage
  | help
  | version
  deriving DecidableEq, Repr

/-- What the arguments of one level may be. -/
structure Level where
  /-- The options with a value, and which values they take. -/
  valued : List (String × (String → Bool))
  /-- The options without one. -/
  flags : List String
  /-- How many positional arguments there may be. -/
  positionals : Nat

/-- What has been read of the arguments of one level. -/
structure Parsed where
  values : List (String × String)
  flags : List String
  positionals : List String
  deriving DecidableEq, Repr

namespace Parsed

/-- Nothing yet. -/
def empty : Parsed := ⟨[], [], []⟩

/-- The value of an option. -/
def value? (p : Parsed) (name : String) : Option String :=
  (p.values.find? fun v => v.1 = name).map (·.2)

/-- The value of an option that has a default. -/
def valueD (p : Parsed) (name fallback : String) : String := (p.value? name).getD fallback

end Parsed

/-- An argument that looks like an option: its name, and the value behind
an equals sign. -/
def longOption? (argument : String) : Option (String × Option String) :=
  match argument.toList with
  | '-' :: '-' :: rest =>
      let name := String.ofList (rest.takeWhile (· != '='))
      match rest.dropWhile (· != '=') with
      | [] => some (name, none)
      | _ :: value => some (name, some (String.ofList value))
  | _ => none

/-- Whether an argument cannot be the value of the option before it. -/
def looksLikeOption (argument : String) : Bool :=
  argument.startsWith "-" && argument != "-"

namespace Level

/-- Takes the value of an option. -/
def takeValue (l : Level) (p : Parsed) (name value : String) : Except Stop Parsed :=
  match l.valued.find? fun v => v.1 = name with
  | none => .error .usage
  | some (_, accepts) =>
      if (p.value? name).isSome || !accepts value then .error .usage
      else .ok { p with values := p.values ++ [(name, value)] }

/-- Takes an option without a value. -/
def takeFlag (l : Level) (p : Parsed) (name : String) : Except Stop Parsed :=
  if name = "help" then .error .help
  else if name ∈ l.flags ∧ name ∉ p.flags then .ok { p with flags := p.flags ++ [name] }
  else .error .usage

/-- Takes a positional argument. -/
def takePositional (l : Level) (p : Parsed) (argument : String) : Except Stop Parsed :=
  if p.positionals.length < l.positionals then
    .ok { p with positionals := p.positionals ++ [argument] }
  else .error .usage

/-- Whether an option takes a value. -/
def takesValue (l : Level) (name : String) : Bool := l.valued.any fun v => v.1 = name

/-- What a short option does. -/
def shortOption (argument : String) : Stop :=
  if (argument.toList.drop 1).head? = some 'h' then .help else .usage

/-- Reads the arguments of a level to their end. -/
def parse (l : Level) (p : Parsed) : List String → Except Stop Parsed
  | [] => .ok p
  | argument :: rest =>
      if argument = "--" then rest.foldlM l.takePositional p
      else match longOption? argument, rest with
        | some (name, some value), rest => do l.parse (← l.takeValue p name value) rest
        | some (name, none), [] =>
            if l.takesValue name then .error .usage else l.takeFlag p name
        | some (name, none), value :: rest =>
            if l.takesValue name then
              if looksLikeOption value then .error .usage
              else do l.parse (← l.takeValue p name value) rest
            else do l.parse (← l.takeFlag p name) (value :: rest)
        | none, rest =>
            if looksLikeOption argument then .error (shortOption argument)
            else do l.parse (← l.takePositional p argument) rest

end Level

/-- Any value will do. -/
def anything : String → Bool := fun _ => true

/-- The option for the log level. -/
def logLevel : String := "log-level"

/-- The count that a text denotes: decimal digits, perhaps behind a plus
sign, of a number of 64 bits. -/
def count? (s : String) : Option Nat :=
  let digits := match s.toList with
    | '+' :: rest => rest
    | rest => rest
  if digits.isEmpty ∨ ¬digits.all Char.isDigit then none
  else if readNumeral digits < 18446744073709551616 then some (readNumeral digits) else none

/-- The arguments of `check`. -/
def checkLevel : Level where
  valued := [(logLevel, anything), ("abbreviations", anything), ("config", anything),
    ("profile", anything), ("compiler", anything), ("report-out", anything),
    ("markdown-out", anything), ("max-annotations", fun s => (count? s).isSome)]
  flags := ["annotations"]
  positionals := 1

/-- The arguments of `explain` and `schema`. -/
def queryLevel : Level := ⟨[(logLevel, anything)], [], 1⟩

/-- The greatest number of annotations that are printed unless another is given. -/
def defaultCap : Nat := 10

/-- The options of `check` from its arguments. -/
def checkOptions (p : Parsed) : CheckOptions where
  template := p.positionals.head?.getD "main.bicep"
  abbreviations := p.valueD "abbreviations" "abbreviations.json"
  config := p.valueD "config" "armguard.toml"
  profile := p.value? "profile"
  compiler := p.valueD "compiler" "az"
  reportOut := p.value? "report-out"
  markdownOut := p.value? "markdown-out"
  annotations :=
    if "annotations" ∈ p.flags then
      some (((p.value? "max-annotations").bind count?).getD defaultCap)
    else none

/-- The subcommands. -/
def subcommands : List String := ["check", "explain", "schema", "help"]

/-- What `help` with its arguments asks for: help on the program, or on
one subcommand. -/
def helpOn : List String → Stop
  | [] => .help
  | [name] => if name ∈ subcommands then .help else .usage
  | _ => .usage

/-- What a subcommand with its arguments asks for. -/
def subcommand (name : String) (arguments : List String) : Except Stop Request :=
  match name with
  | "check" => do .ok (.check (checkOptions (← checkLevel.parse .empty arguments)))
  | "explain" => do
      match (← queryLevel.parse .empty arguments).positionals with
      | identifier :: _ => .ok (.explain identifier)
      | [] => .error .usage
  | "schema" => do
      let p ← queryLevel.parse .empty arguments
      .ok (.schema (p.positionals.head?.getD "report"))
  | "help" => .error (helpOn arguments)
  | _ => .error .usage

/-- What a short option before the subcommand does. -/
def topShortOption (argument : String) : Stop :=
  match (argument.toList.drop 1).head? with
  | some 'h' => .help
  | some 'V' => .version
  | _ => .usage

/-- What the arguments ask for, the log level having been given or not. -/
def topLevel (levelGiven : Bool) : List String → Except Stop Request
  | [] => .error .usage
  | argument :: rest =>
      match longOption? argument, rest with
      | some (name, some _), rest =>
          if name = logLevel ∧ ¬levelGiven then topLevel true rest else .error .usage
      | some ("version", none), _ => .error .version
      | some ("help", none), _ => .error .help
      | some (name, none), value :: rest =>
          if name = logLevel ∧ ¬levelGiven ∧ ¬looksLikeOption value then topLevel true rest
          else .error .usage
      | some (_, none), [] => .error .usage
      | none, rest =>
          if looksLikeOption argument then .error (topShortOption argument)
          else subcommand argument rest

/-- What the arguments ask for; none if they are not understood. -/
def Request.ofArguments? (arguments : List String) : Option Request :=
  match topLevel false arguments with
  | .ok request => some request
  | .error .usage => none
  | .error .help => some .help
  | .error .version => some .version

end TemplateGate.CommandLine
