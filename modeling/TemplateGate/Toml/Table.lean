/-
# `Toml.Table` — how tables of a document come together

A table may be spread over a document: opened by a header, implied by the
header of a table inside it, or grown by dotted keys.  What may still be
added to it depends on how it came about, its `Origin`:

* a header may define a table once, or take up one that headers implied;
* a header may lead through any table, and through the last table of a
  series, but not through a value;
* a dotted key may lead through tables that no header has defined, and
  ends in one of them; a table that a dotted key has led through can no
  longer be taken up by a header;
* no key is defined twice.

A table written in braces is a value, and closed.
-/
import TemplateGate.Toml.Value

namespace TemplateGate.Toml

/-- How a table came about. -/
inductive Origin where
  /-- By a header of its own. -/
  | defined
  /-- By the header of a table inside it. -/
  | implied
  /-- By dotted keys, or by the header of a table inside it and then
  used by dotted keys. -/
  | dotted
  deriving DecidableEq, Repr

/-- What stands under a key while a document is read. -/
inductive Node where
  | value (value : Value)
  | table (origin : Origin) (entries : List (String × Node))
  /-- A series of tables: all but the last one, and the last one, to
  which more can be added. -/
  | series (earlier : List (List (String × Node))) (last : List (String × Node))

/-- The entries of a table while a document is read. -/
abbrev Entries := List (String × Node)

namespace Entries

/-- What stands under a key. -/
def get? (key : String) : Entries → Option Node
  | [] => none
  | (k, n) :: rest => if k = key then some n else get? key rest

/-- Puts a node under a key: in its place if the key is there, at the end if not. -/
def set (key : String) (node : Node) : Entries → Entries
  | [] => [(key, node)]
  | (k, n) :: rest => if k = key then (k, node) :: rest else (k, n) :: set key node rest

end Entries

/-- A table and how it came about. -/
structure Group where
  origin : Origin
  entries : Entries

/-- The origin of a table after a path has led through it, if it may:
dotted keys mark the table, and a table with a header is closed to them. -/
def Origin.ledThrough (onTheWay : Origin) (origin : Origin) : Option Origin :=
  if onTheWay = .dotted then
    if origin = .defined then none else some .dotted
  else some origin

/-- Changes the table at the end of a path, making the tables that are
missing on the way. -/
def descend (onTheWay : Origin) (change : Group → Option Group) :
    List String → Group → Option Group
  | [], g => change g
  | key :: path, g => do
      let node ← match Entries.get? key g.entries with
        | none =>
            (descend onTheWay change path ⟨onTheWay, []⟩).map fun inner =>
              .table inner.origin inner.entries
        | some (.table origin entries) =>
            (onTheWay.ledThrough origin).bind fun origin =>
              (descend onTheWay change path ⟨origin, entries⟩).map fun inner =>
                .table inner.origin inner.entries
        | some (.series earlier last) =>
            (descend onTheWay change path ⟨.defined, last⟩).map fun inner =>
              .series earlier inner.entries
        | some (.value _) => none
      some { g with entries := Entries.set key node g.entries }

/-- Adds an entry to a table: under a key alone to any table that dotted
keys have not marked, under a path only to one that they have. -/
def addEntry (dotted : Bool) (key : String) (value : Value) (g : Group) : Option Group :=
  if dotted = (g.origin == .dotted) ∧ (Entries.get? key g.entries).isNone then
    some { g with entries := g.entries ++ [(key, .value value)] }
  else none

/-- Adds the entry of a key with the given parts, the last one apart. -/
def define (path : List String) (key : String) (value : Value) : Group → Option Group :=
  descend .dotted (addEntry (!path.isEmpty) key value) path

/-- Opens a table by its header, in the table that contains it. -/
def openTable (key : String) (g : Group) : Option Group :=
  match Entries.get? key g.entries with
  | none => some { g with entries := g.entries ++ [(key, .table .defined [])] }
  | some (.table .implied entries) =>
      some { g with entries := Entries.set key (.table .defined entries) g.entries }
  | some _ => none

/-- Opens the next table of a series by its header, in the table that
contains the series. -/
def openSeries (key : String) (g : Group) : Option Group :=
  match Entries.get? key g.entries with
  | none => some { g with entries := g.entries ++ [(key, .series [] [])] }
  | some (.series earlier last) =>
      some { g with entries := Entries.set key (.series (earlier ++ [last]) []) g.entries }
  | some _ => none

mutual

/-- The value of a node. -/
def Node.toValue : Node → Value
  | .value v => v
  | .table _ entries => .table (entryValues entries)
  | .series earlier last => .array (tableValues earlier ++ [.table (entryValues last)])

/-- The values of entries. -/
def entryValues : List (String × Node) → List (String × Value)
  | [] => []
  | (key, node) :: rest => (key, node.toValue) :: entryValues rest

/-- The values of a series of tables. -/
def tableValues : List (List (String × Node)) → List Value
  | [] => []
  | entries :: rest => .table (entryValues entries) :: tableValues rest

end

/-- The last part of a key and the parts before it. -/
def lastPart? (parts : List String) : Option (List String × String) :=
  (parts.getLast?).map fun key => (parts.dropLast, key)

/-- The statements of a document. -/
inductive Statement where
  /-- The header of a table. -/
  | header (path : List String) (key : String)
  /-- The header of the next table of a series. -/
  | seriesHeader (path : List String) (key : String)
  | entry (path : List String) (key : String) (value : Value)

/-- A document while it is read: its tables, and the path of the table
whose header was read last. -/
structure Draft where
  root : Group
  current : List String

namespace Draft

/-- The draft of the empty document. -/
def empty : Draft := ⟨⟨.defined, []⟩, []⟩

/-- Carries out a statement. -/
def add (d : Draft) : Statement → Option Draft
  | .header path key => do
      let root ← descend .implied (openTable key) path d.root
      some ⟨root, path ++ [key]⟩
  | .seriesHeader path key => do
      let root ← descend .implied (openSeries key) path d.root
      some ⟨root, path ++ [key]⟩
  | .entry path key value => do
      let root ← descend .implied (define path key value) d.current d.root
      some { d with root }

/-- The entries of the document that a list of statements describes. -/
def ofStatements? (statements : List Statement) : Option (List (String × Value)) :=
  (statements.foldlM add empty).map fun d => entryValues d.root.entries

end Draft

/-- The table that entries in braces describe. -/
def inlineTable? (entries : List (List String × String × Value)) : Option Value :=
  (entries.foldlM (fun (g : Group) (path, key, value) => define path key value g)
    ⟨.defined, []⟩).map fun (g : Group) => .table (entryValues g.entries)

end TemplateGate.Toml
