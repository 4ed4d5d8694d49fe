/-
# `Path` — names of files, as texts

A path is a text whose parts are separated by slashes.  Empty parts and
points in the middle or at the end say nothing and are skipped; a point
at the start stands for the working directory.
-/

namespace TemplateGate.Path

/-- The parts of a path, between the slashes. -/
def parts (path : String) : List String :=
  (go path.toList []).map String.ofList
where
  /-- Collects a part until the next slash. -/
  go : List Char → List Char → List (List Char)
    | [], part => [part.reverse]
    | '/' :: rest, part => part.reverse :: go rest []
    | c :: rest, part => go rest (c :: part)

/-- Whether a part says nothing. -/
def isIdle (part : String) : Bool := part.isEmpty || part == "."

/-- The name of the file that a path leads to. -/
def fileName? (path : String) : Option String :=
  ((parts path).filter (!isIdle ·)).getLast?.filter (· != "..")

/-- What follows the last point of a name; a point at the start is part
of the name. -/
def extensionOf? (name : String) : Option String :=
  let backwards := name.toList.reverse
  match backwards.dropWhile (· != '.') with
  | '.' :: _ :: _ => some (String.ofList (backwards.takeWhile (· != '.')).reverse)
  | _ => none

/-- The extension of the file that a path leads to. -/
def extension? (path : String) : Option String := (fileName? path).bind extensionOf?

/-- A list of parts without those at its end that say nothing; the first
part is kept. -/
def dropIdleEnd : List String → List String
  | [] => []
  | first :: rest => first :: (rest.reverse.dropWhile isIdle).reverse

/-- The path of the directory that holds what a path leads to, as it is
written; none if that is not written. -/
def parent? (path : String) : Option String :=
  let above := dropIdleEnd (dropIdleEnd (parts path)).dropLast
  let text := if above = [""] ∧ path.startsWith "/" then "/" else String.intercalate "/" above
  if text.isEmpty then none else some text

end TemplateGate.Path
