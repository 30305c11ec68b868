import Punctual.Check.World
import Punctual.Json.Reader

/-!
# Metadata

Metadata lists the model files that belong to all tasks, to the tasks of a unit, and to single
tasks. It is read from an object: the entry `*` is a list for all tasks, and every other entry
belongs to a unit and is a list for all its tasks or an object of lists for its tasks.

Paths are seen from the directory of the metadata file.
-/

namespace Punctual

/-- The entry of a unit or of all tasks: files, or files for each name. -/
inductive MetadataEntry
  | files (paths : List String)
  | tasks (lists : List (String × List String))

/-- The model files that belong to tasks. -/
structure Metadata where
  common : List String
  units : List (String × List (String × List String))
  deriving DecidableEq, Repr

namespace Metadata

/-- No file at all. -/
def empty : Metadata :=
  ⟨[], []⟩

/-- The name that stands for all tasks. -/
def wildcard : String := "*"

/-- Reads an entry. Its grammar is checked before its shape. -/
def entryReader : Json.Reader MetadataEntry := fun depth ts =>
  match Json.Reader.any depth ts with
  | .error f => .error f
  | .ok _ =>
    match (Json.Reader.list .text).map MetadataEntry.files depth ts with
    | .ok result => .ok result
    | .error _ =>
      match (Json.Reader.object (.list .text)).map MetadataEntry.tasks depth ts with
      | .ok result => .ok result
      | .error _ => .error .wrongShape

/-- Takes one more entry; its paths are seen from `base`. -/
def add (base : String) (m : Metadata) (key : String) (entry : MetadataEntry) :
    Except MetadataError Metadata :=
  let resolve (paths : List String) := paths.map (Path.join base)
  match entry with
  | .files paths =>
    if key = wildcard then .ok { m with common := resolve paths }
    else .ok { m with units := upsert key [(wildcard, resolve paths)] m.units }
  | .tasks lists =>
    if key = wildcard then .error .invalidWildcard
    else
      .ok { m with
        units := upsert key (lists.map fun (name, paths) => (name, resolve paths)) m.units }

/-- Reads metadata from a text; paths are seen from `base`. -/
def read (base text : String) : Except MetadataError Metadata :=
  match Json.parse (.object entryReader) text with
  | .error f => .error (.notData f)
  | .ok entries => entries.foldlM (fun m (key, entry) => m.add base key entry) empty

/-- Reads a metadata file. -/
def ofFile (tree : Tree) (path : String) : Except CheckError Metadata :=
  match tree.readText path with
  | .error e => .error (.metadata path (.unreadable e))
  | .ok text =>
    match read (Path.parent path) text with
    | .error e => .error (.metadata path e)
    | .ok m => .ok m

/-- The files of the unit of a task, for all its tasks and for the task itself. -/
def taskFiles (m : Metadata) (t : Task) : Option (List String) × Option (List String) :=
  let unit := (find? t.unit m.units).getD []
  (find? wildcard unit, find? t.name unit)

/-- The files of a task, those of all tasks first. -/
def filesFor (m : Metadata) (t : Task) : List String :=
  m.common ++ (m.taskFiles t).1.getD [] ++ (m.taskFiles t).2.getD []

/-- The warning about a task that has no files of its own. -/
def warnings (m : Metadata) (t : Task) : List String :=
  match m.taskFiles t with
  | (none, none) =>
    ["No metadata for task " ++ t.unit ++ "/" ++ t.name ++
      ", continuing without task specific files"]
  | _ => []

/-- All files that are listed. -/
def allFiles (m : Metadata) : List String :=
  m.common ++ m.units.flatMap fun (_, lists) => lists.flatMap (·.2)

end Metadata

end Punctual
