/-!
# Paths

A path is a text; its parts stand between slashes. Joining and taking the parent work on the text
and resolve nothing.
-/

namespace Punctual.Path

/-- The parts between the slashes of a list of characters; there is always at least one. -/
def parts : List Char → List (List Char)
  | [] => [[]]
  | c :: cs =>
    if c = '/' then [] :: parts cs
    else match parts cs with
      | [] => [[c]]
      | p :: ps => (c :: p) :: ps

/-- The parts of a path. -/
def split (path : String) : List String :=
  (parts path.toList).map .ofList

/-- The path starts at the root of all files. -/
def isAbsolute (path : String) : Bool :=
  path.toList.head? = some '/'

/-- The path `path` seen from `base`: an absolute path stays as it is, and no slash is put in
front of it if the base is empty or ends with one. -/
def join (base path : String) : String :=
  if isAbsolute path then path
  else if base.toList = [] then path
  else if base.toList.getLast? = some '/' then base ++ path
  else base ++ "/" ++ path

/-- The parts, the last one first, without those that name nothing; the part at the start of a
path always counts. -/
def dropEmptyParts : List String → List String
  | [] => []
  | [p] => [p]
  | p :: q :: ps => if p = "" ∨ p = "." then dropEmptyParts (q :: ps) else p :: q :: ps

/-- The path without its last part; empty if there is no other part. -/
def parent (path : String) : String :=
  let kept := dropEmptyParts (dropEmptyParts (split path).reverse).tail
  if kept = [""] ∧ isAbsolute path then "/" else "/".intercalate kept.reverse

/-- The paths of parts, given last one first, and of all but the last of them, and so on. -/
def shortened : List String → List String
  | [] => []
  | p :: ps => "/".intercalate (p :: ps).reverse :: shortened ps

/-- The paths above a path, the longest first; parts that name nothing are left out. -/
def above (path : String) : List String :=
  let parts := split path
  let named := parts.head?.toList ++ parts.tail.filter fun p => p ≠ "" ∧ p ≠ "."
  shortened named.reverse.tail

/-- The letters after the last point of the last part, unless the point is its first letter. -/
def extension (path : String) : String :=
  let name := ((dropEmptyParts (split path).reverse).head?.getD "").toList.reverse
  let after := name.takeWhile (· ≠ '.')
  let before := (name.dropWhile (· ≠ '.')).tail
  if before.isEmpty then "" else .ofList after.reverse

/-- The path with one extension more; slashes and points that name nothing fall away behind its last
part. A path whose last part is no name of a file has none. -/
def withExtension? (path ext : String) : Option String :=
  match dropEmptyParts (split path).reverse with
  | [] => none
  | name :: above =>
    if name = "" ∨ name = "." ∨ name = ".." then none
    else some ("/".intercalate (name :: above).reverse ++ "." ++ ext)

end Punctual.Path
