import Punctual.Files.Error
import Punctual.Files.Path
import Punctual.Json.Value
import Punctual.Text.Utf8

/-!
# Trees of files

A tree holds the files and directories around one working directory. A place in it is the list of
names from the working directory, or from the root of all files, whose name is a slash. A path
leads to a place part by part, and every part but the last has to lead to a directory.

The entries are kept in order of creation. Main statements: a file just written reads back
(`Tree.node?_put_self`), and writing leaves every other place alone (`Tree.node?_put_of_ne`).
-/

namespace Punctual

/-- What stands at a place. -/
inductive Node
  | file (bytes : ByteArray)
  | directory

instance : DecidableEq Node
  | .file a, .file b =>
    match ByteArray.instDecidableEq a b with
    | .isTrue h => .isTrue (h ▸ rfl)
    | .isFalse h => .isFalse fun e => h (Node.file.inj e)
  | .file _, .directory => .isFalse nofun
  | .directory, .file _ => .isFalse nofun
  | .directory, .directory => .isTrue rfl

/-- The names that lead to a place. -/
abbrev Place := List String

namespace Place

/-- The root of all files. -/
def root : Place := ["/"]

/-- The name of the directory above. -/
def up : String := ".."

/-- The working directory, or a directory above it. -/
def IsAbove (place : Place) : Prop :=
  ∀ name ∈ place, name = up

instance (place : Place) : Decidable place.IsAbove :=
  inferInstanceAs (Decidable (∀ name ∈ place, name = up))

/-- The place of the directory above. -/
def above (place : Place) : Place :=
  if place = root then place
  else if place.IsAbove then place ++ [up]
  else place.dropLast

/-- A path that leads to a place. -/
def path (place : Place) : String :=
  match place with
  | [] => "."
  | name :: names =>
    if name = "/" then "/" ++ "/".intercalate names else "/".intercalate place

end Place

/-- Files and directories around the working directory. -/
structure Tree where
  entries : List (Place × Node)

namespace Tree

/-- The tree without any entry. -/
def empty : Tree :=
  ⟨[]⟩

/-- What stands at a place. The working directory and those above it are always there. -/
def node? (t : Tree) (place : Place) : Option Node :=
  if place.IsAbove then some .directory else find? place t.entries

/-- The places in the directory of a place. The root of all files is in no other directory. -/
def within (t : Tree) (place : Place) : List Place :=
  t.entries.filterMap fun (p, _) =>
    if p.dropLast = place ∧ p ≠ [] ∧ p ≠ Place.root then some p else none

/-- Puts a file or directory at a place. -/
def put (t : Tree) (place : Place) (n : Node) : Tree :=
  ⟨upsert place n t.entries⟩

theorem node?_put_self {place : Place} (h : ¬ place.IsAbove) (t : Tree) (n : Node) :
    (t.put place n).node? place = some n := by
  simp [node?, put, h]

theorem node?_put_of_ne {place other : Place} (h : other ≠ place) (t : Tree) (n : Node) :
    (t.put place n).node? other = t.node? other := by
  simp [node?, put, find?_upsert_of_ne h]

/-! ## Following paths -/

/-- The greatest number of bytes of a name. -/
def maxNameBytes : Nat := 255

/-- The greatest number of bytes of a path. -/
def maxPathBytes : Nat := 4095

/-- One step from the place `here` along a part of a path. -/
def step (t : Tree) (here : Place) (part : String) : Except IoError Place :=
  match t.node? here with
  | none => .error .notFound
  | some (.file _) => .error .notDirectory
  | some .directory =>
    if part = "" ∨ part = "." then .ok here
    else if part = Place.up then .ok here.above
    else if maxNameBytes < part.utf8ByteSize then .error .nameTooLong
    else .ok (here ++ [part])

/-- The places that parts of a path lead to, one after the other. -/
def follow (t : Tree) (path : String) (parts : List String) : Except IoError Place :=
  parts.foldlM t.step (if Path.isAbsolute path then Place.root else [])

/-- Why no path has the given text. -/
def textError? (path : String) : Option IoError :=
  if path.toList.contains '\x00' then some .endMarkInside
  else if path = "" then some .notFound
  else if maxPathBytes < path.utf8ByteSize then some .nameTooLong
  else none

/-- The place that a path leads to. Nothing has to stand there. -/
def locate (t : Tree) (path : String) : Except IoError Place :=
  match textError? path with
  | some e => .error e
  | none => t.follow path (Path.split path)

/-- What stands where a path leads. -/
def at? (t : Tree) (path : String) : Except IoError Node := do
  let place ← t.locate path
  match t.node? place with
  | some n => return n
  | none => throw .notFound

/-- The path leads to a file or directory. -/
def leadsSomewhere (t : Tree) (path : String) : Bool :=
  (t.at? path).isOk

/-- The path leads to a directory. -/
def isDirectory (t : Tree) (path : String) : Bool :=
  match t.at? path with
  | .ok .directory => true
  | _ => false

/-- The path leads to a file. -/
def isFile (t : Tree) (path : String) : Bool :=
  match t.at? path with
  | .ok (.file _) => true
  | _ => false

/-! ## Reading and writing -/

/-- The bytes of a file. -/
def readBytes (t : Tree) (path : String) : Except IoError ByteArray := do
  match ← t.at? path with
  | .file bytes => return bytes
  | .directory => throw .isDirectory

/-- The text of a file. -/
def readText (t : Tree) (path : String) : Except IoError String := do
  match Text.decode? (← t.readBytes path) with
  | some s => return s
  | none => throw .invalidUtf8

/-- The place where a file that a path names is or can be made. A name with a slash behind it is that
of a directory, whatever stands there. -/
def locateFile (t : Tree) (path : String) : Except IoError Place := do
  let parts := (Path.split path).reverse
  match textError? path, parts.dropWhile (· = "") with
  | none, last :: above =>
    if parts.head? = some "" ∧ last ≠ "." ∧ last ≠ Place.up then
      let _ ← t.follow path (above.reverse ++ ["."])
      throw .isDirectory
    else t.locate path
  | _, _ => t.locate path

/-- Writes a file, over the one that may be there. -/
def writeBytes (t : Tree) (path : String) (bytes : ByteArray) : Except IoError Tree := do
  let place ← t.locateFile path
  match t.node? place with
  | some .directory => throw .isDirectory
  | _ => return t.put place (.file bytes)

/-- Writes a text as a file. -/
def writeText (t : Tree) (path text : String) : Except IoError Tree :=
  t.writeBytes path (Text.encode text)

/-- Removes a file. -/
def remove (t : Tree) (path : String) : Except IoError Tree := do
  match ← t.at? path with
  | .directory => throw .isDirectory
  | .file _ =>
    let place ← t.locate path
    return ⟨t.entries.filter fun (p, _) => p ≠ place⟩

/-! ## Making directories -/

/-- The place where a directory that a path names is or can be made. Slashes behind its name say
nothing. -/
def locateDirectory (t : Tree) (path : String) : Except IoError Place :=
  match textError? path with
  | some e => .error e
  | none => t.follow path ((Path.split path).reverse.dropWhile (· = "")).reverse

/-- Makes one directory. -/
def makeDirectory (t : Tree) (path : String) : Except IoError Tree := do
  let place ← t.locateDirectory path
  if (t.node? place).isSome then throw .alreadyExists
  else return t.put place .directory

/-- Makes a directory and those above it, given by their paths; what is a directory already stays. -/
def makeDirectoriesAlong (t : Tree) : List String → Except IoError Tree
  | [] => .ok t
  | path :: above =>
    match t.makeDirectory path with
    | .ok t' => .ok t'
    | .error .notFound =>
      match t.makeDirectoriesAlong above with
      | .error e => .error e
      | .ok t' =>
        match t'.makeDirectory path with
        | .ok t'' => .ok t''
        | .error e => if t'.isDirectory path then .ok t' else .error e
    | .error e => if t.isDirectory path then .ok t else .error e

/-- Makes a directory and those above it. -/
def makeDirectories (t : Tree) (path : String) : Except IoError Tree :=
  if path = "" then .ok t else t.makeDirectoriesAlong (path :: Path.above path)

/-- The tree with a file and the directories above it, or the same tree if they cannot be made. -/
def withFile (t : Tree) (path : String) (bytes : ByteArray) : Tree :=
  let t := (t.makeDirectories (Path.parent path)).toOption.getD t
  (t.writeBytes path bytes).toOption.getD t

/-- The tree of some files. -/
def ofFiles (files : List (String × ByteArray)) : Tree :=
  files.foldl (fun t (path, bytes) => t.withFile path bytes) .empty

end Tree

end Punctual
