import Punctual.Shell.Tool

/-!
# Finding programs

A program is found by its name, or by a path to one of the directories of programs. The programs
are the interpreters, the tools, and the tools that start other programs.
-/

namespace Punctual.Shell

/-- How a program goes on as another one of some name, which is there, with arguments. -/
abbrev Runner := Octets → List Octets → Act Unit

namespace Program

/-- The interpreter that every script is written for. -/
def interpreter : String := "sh"

def wordyInterpreter : String := "bash"

def interpreters : List String := [interpreter, "dash", wordyInterpreter]

def starters : List String :=
  ["awk", "mawk", "env", "find", "xargs", "timeout", "nohup", "nice", "setsid", "stdbuf", "which"]

def isThere (name : String) : Bool :=
  interpreters.contains name || starters.contains name || (Tool.byName? name).isSome

/-- The names that lead from the root to where a path leads, if it starts at the root. -/
def namesAlong (path : String) : List String :=
  (Path.split path).foldl (fun names part =>
    if part = "" ∨ part = "." then names
    else if part = Place.up then names.dropLast
    else names ++ [part]) []

/-- The program of a name, without its directory. -/
def known? (name : String) : Option String :=
  if name.toList.contains '/' then
    match Path.isAbsolute name, namesAlong name with
    | true, ["bin", base] | true, ["usr", "bin", base] => if isThere base then some base else none
    | _, _ => none
  else if isThere name then some name else none

/-- The directories outside of a tree, by the names that lead to them from the root. -/
def directories : List (List String) :=
  [[], ["bin"], ["dev"], ["etc"], ["home"], ["lib"], ["opt"], ["proc"], ["root"], ["sbin"], ["sys"],
    ["tmp"], ["usr"], ["usr", "bin"], ["usr", "lib"], ["usr", "local"], ["usr", "local", "bin"],
    ["usr", "sbin"], ["var"], ["var", "tmp"]]

def files : List (List String) :=
  [["bin", "sh"], ["bin", "bash"], ["usr", "bin", "sh"], ["usr", "bin", "env"], ["dev", "null"],
    ["dev", "zero"], ["dev", "stdin"], ["dev", "stdout"], ["dev", "stderr"],
    ["etc", "group"], ["etc", "hostname"], ["etc", "hosts"], ["etc", "passwd"]]

def outside : Tree :=
  ⟨directories.map (fun names => ("/" :: names, Node.directory)) ++
    files.map fun names => ("/" :: names, Node.file ByteArray.empty)⟩

/-- Why no program is found under a name without a slash: the names of directories are found in every
directory that is searched. -/
def searchError (name : String) : IoError :=
  if Tree.maxNameBytes < name.utf8ByteSize then .nameTooLong
  else if name = "." ∨ name = Place.up then .permissionDenied
  else .notFound

def surrounded (t : Tree) : Tree :=
  ⟨t.entries ++ outside.entries.filter fun (place, _) => (t.node? place).isNone⟩

/-- A tree that was surrounded, without what still stands outside of it. -/
def inner (before t : Tree) : Tree :=
  ⟨t.entries.filter fun (place, n) =>
    (before.node? place).isSome || outside.node? place ≠ some n⟩

/-- Why a program that is none of those known cannot be started; the files at some places can. The path is
seen from the working directory of the tree. -/
def pathError? (tree : Tree) (startable : List Place) (path : String) : Option IoError :=
  match tree.at? path, tree.locate path with
  | .ok (.file _), .ok place => if startable.contains place then none else some .permissionDenied
  | .ok .directory, _ => some .permissionDenied
  | .error e, _ | _, .error e => some e

/-- Why a program cannot be started with arguments. -/
def startError? (tree : Tree) (name : String) (args : List String) : Option IoError :=
  if (name :: args).any fun w => w.toList.contains '\x00' then
    some (.other "nul byte found in provided data")
  else if (known? name).isSome then none
  else if name.toList.contains '/' then pathError? (surrounded tree) [] name
  else some (searchError name)

/-- What a file that is started asks for in its first line: the program that runs it, and an argument for
that. -/
def runnerOf (cs : Octets) : Option (Octets × List Octets) :=
  match cs with
  | '#' :: '!' :: rest =>
    let line := (rest.takeWhile (· ≠ '\n')).dropWhile isSpace
    let program := line.takeWhile fun c => !isSpace c
    let arg := Text.dropEndWhile isSpace ((line.drop program.length).dropWhile isSpace)
    some (program, if arg.isEmpty then [] else [arg])
  | _ => none

/-- A program that was found: a path to it, the name of the program that runs, and the arguments in front
of those that are given. -/
structure Found where
  path : String
  base : String
  front : List Octets

/-- The program that a path leads to. A file of the tree is run by the program that its first line asks
for, or by the interpreter. -/
def atPath (m : Machine) (path : String) : Except IoError Found := do
  match known? path with
  | some base => return ⟨path, base, []⟩
  | none =>
    let place := m.pathFrom path
    if let some e := pathError? m.tree m.startable place then throw e
    let text := Octets.ofBytes (← m.tree.readBytes place)
    match runnerOf text with
    | none => return ⟨path, interpreter, [Octets.ofText path]⟩
    | some (program, args) =>
      match known? (Octets.toText program) with
      | some base => return ⟨path, base, args ++ [Octets.ofText path]⟩
      | none => throw .notFound

/-- The first program of a name in some directories. One that cannot be started is passed over. -/
def inDirectories (m : Machine) (name : String) : List String → Except IoError Found
  | [] => .error (searchError name)
  | directory :: rest =>
    match atPath m (Path.join (if directory = "" then "." else directory) name) with
    | .ok found => .ok found
    | .error .permissionDenied =>
      match inDirectories m name rest with
      | .ok found => .ok found
      | .error _ => .error .permissionDenied
    | .error _ => inDirectories m name rest

/-- The program of a name. It is searched for where programs are, or in the directories that a variable
names. -/
def search (m : Machine) (name : String) : Except IoError Found :=
  if name = "" then .error .notFound
  else if name.toList.contains '/' then atPath m name
  else
    match find? "PATH" m.values with
    | some path => inDirectories m name ((Tool.fieldsOf ':' path).map Octets.toText)
    | none =>
      if isThere name then .ok ⟨"/usr/bin/" ++ name, name, []⟩ else .error (searchError name)

end Program

end Punctual.Shell
