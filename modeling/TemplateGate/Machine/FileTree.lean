/-
# `Machine.FileTree` — files and directories below a working directory

The files of a machine, as far as a program can see them that uses
relative paths.  An entry is addressed by the names that lead to it from
the working directory; of what lies outside of it only that there are
directories is known.

Walking along a path takes one part at a time, and each part needs a
directory to start from, even one that says nothing: a slash at the end
of the name of a file leads nowhere.  Names have at most 255 bytes, and
paths fewer than 4096.
-/
import TemplateGate.Host
import TemplateGate.Path
import TemplateGate.Text.Utf8

namespace TemplateGate

open Text

/-- What a name can stand for. -/
inductive Entry where
  | file (bytes : List UInt8)
  | directory
  deriving DecidableEq, Repr

/-- Where a path leads to. -/
inductive Place where
  /-- Below the working directory, along these names. -/
  | inside (names : List String)
  /-- In a directory outside of it. -/
  | outside
  deriving DecidableEq, Repr

/-- The entries below the working directory, with the names that lead to
each; of two at one place the first counts. -/
structure FileTree where
  entries : List (List String × Entry)
  deriving DecidableEq, Repr

namespace FileTree

/-- The empty directory. -/
def empty : FileTree := ⟨[]⟩

/-- The entry at the end of a list of names. -/
def find? (names : List String) : List (List String × Entry) → Option Entry
  | [] => none
  | (n, e) :: rest => if n = names then some e else find? names rest

/-- What is at a place; the working directory and what lies outside of it
are directories. -/
def entryAt? (t : FileTree) : Place → Option Entry
  | .inside [] => some .directory
  | .inside names => find? names t.entries
  | .outside => some .directory

/-- Puts an entry in its place, or at the end if there is none with its names. -/
def putEntry (names : List String) (e : Entry) :
    List (List String × Entry) → List (List String × Entry)
  | [] => [(names, e)]
  | (n, old) :: rest => if n = names then (n, e) :: rest else (n, old) :: putEntry names e rest

/-- The tree with an entry added or replaced. -/
def put (t : FileTree) (names : List String) (e : Entry) : FileTree :=
  ⟨putEntry names e t.entries⟩

/-- The tree with a file or directory added, and the directories that lead to it. -/
def plant (t : FileTree) (names : List String) (e : Entry) : FileTree :=
  let above := ((List.range names.length).map fun n => names.take n).filter (· ≠ [])
  (above.foldl (fun t dir => t.put dir .directory) t).put names e

/-- The greatest number of bytes in a name. -/
def maxNameBytes : Nat := 255

/-- The least number of bytes that is too much for a path. -/
def pathBytesLimit : Nat := 4096

/-- Why a text cannot be a path at all. -/
def pathFault? (path : String) : Option SystemError :=
  if path.toList.contains '\x00' then some .nulInPath
  else if path.isEmpty then some .notFound
  else if pathBytesLimit ≤ path.utf8ByteSize then some .nameTooLong
  else none

/-- Refuses what cannot be a path. -/
def checkPath (path : String) : Except SystemError Unit :=
  (pathFault? path).elim (.ok ()) .error

/-- Where one part of a path leads to. -/
def step (t : FileTree) (place : Place) (part : String) : Except SystemError Place :=
  match t.entryAt? place with
  | none => .error .notFound
  | some (.file _) => .error .notADirectory
  | some .directory =>
      if Path.isIdle part then .ok place
      else if maxNameBytes < part.utf8ByteSize then .error .nameTooLong
      else match place with
        | .outside => if part = ".." then .ok .outside else .error .notFound
        | .inside names =>
            if part = ".." then .ok (if names = [] then .outside else .inside names.dropLast)
            else .ok (.inside (names ++ [part]))

/-- Where a list of parts leads to. -/
def walk (t : FileTree) (start : Place) : List String → Except SystemError Place
  | [] => .ok start
  | part :: rest => do t.walk (← t.step start part) rest

/-- Where a path starts. -/
def startOf (path : String) : Place := if path.startsWith "/" then .outside else .inside []

/-- Where a path leads to. -/
def resolve (t : FileTree) (path : String) : Except SystemError Place := do
  checkPath path
  t.walk (startOf path) (Path.parts path)

/-- What is at the end of a path. -/
def lookup (t : FileTree) (path : String) : Except SystemError Entry := do
  match t.entryAt? (← t.resolve path) with
  | some e => .ok e
  | none => .error .notFound

/-- Whether a path leads to a file. -/
def isFile (t : FileTree) (path : String) : Bool :=
  match t.lookup path with
  | .ok (.file _) => true
  | _ => false

/-- Whether a path leads to a directory. -/
def isDirectory (t : FileTree) (path : String) : Bool :=
  match t.lookup path with
  | .ok .directory => true
  | _ => false

/-- The text of the file that a path leads to. -/
def readText (t : FileTree) (path : String) : Except SystemError String := do
  match ← t.lookup path with
  | .directory => .error .isADirectory
  | .file bytes =>
      match decode bytes with
      | some text => .ok text
      | none => .error .notText

/-- A path without slashes at its end. -/
def trimSlashes (path : String) : String :=
  String.ofList (path.toList.reverse.dropWhile (· == '/')).reverse

/-- Writes a file, new or not.  Whatever comes before the last part of its
path must be a directory; a path that ends in a slash, a point or two
names a directory, which cannot be written. -/
def write (t : FileTree) (path : String) (bytes : List UInt8) : Except SystemError FileTree := do
  checkPath path
  let parts := Path.parts (trimSlashes path)
  let place ← t.walk (startOf path) (parts.dropLast ++ [""])
  if path.endsWith "/" then .error .isADirectory
  else
    let target ← t.step place (parts.getLast?.getD "")
    match target, t.entryAt? target with
    | .inside names, some (.file _) => .ok (t.put names (.file bytes))
    | .inside names, none => .ok (t.put names (.file bytes))
    | _, _ => .error .isADirectory

/-- Makes one directory, whose path may end in slashes. -/
def makeDirectory (t : FileTree) (path : String) : Except SystemError FileTree := do
  checkPath path
  let target ← t.resolve (trimSlashes path)
  match target, t.entryAt? target with
  | .inside names, none => .ok (t.put names .directory)
  | _, _ => .error .alreadyExists

/-- How an attempt to make a directory ends: one that is there already will do. -/
def settle (t : FileTree) (path : String) :
    Except SystemError FileTree → Except SystemError Unit × FileTree
  | .ok made => (.ok (), made)
  | .error e => (if t.isDirectory path then .ok () else .error e, t)

/-- Makes a directory and those above it, as far as the fuel reaches: if
the directory above is missing, it is made first.  What was made on the way
stays, also if a directory below it cannot be made. -/
def makeDirectoriesWithin (t : FileTree) : Nat → String → Except SystemError Unit × FileTree
  | 0, _ => (.ok (), t)
  | fuel + 1, path =>
      match t.makeDirectory path with
      | .error .notFound =>
          match (Path.parent? path).elim (.ok (), t) (t.makeDirectoriesWithin fuel) with
          | (.ok (), above) => above.settle path (above.makeDirectory path)
          | (.error e, above) => (.error e, above)
      | result => t.settle path result

/-- Makes a directory and those above it, where they are missing. -/
def makeDirectories (t : FileTree) (path : String) : Except SystemError Unit × FileTree :=
  if path.isEmpty then (.ok (), t) else t.makeDirectoriesWithin (path.length + 1) path

end FileTree

end TemplateGate
