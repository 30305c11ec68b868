import Punctual.Shell.Machine
import Punctual.Text.Lines

/-!
# The input of tools

A tool takes arguments and gives the status it ends with. Most tools work on the files that their
arguments name, or on standard input if there are none.
-/

namespace Punctual.Shell

/-- A program: its arguments are given, and it ends with a status. -/
abbrev Tool := List Octets → Act Nat

namespace Tool

/-- Why a file could not be used, in the words of a tool. -/
def reason : IoError → String
  | .notFound => "No such file or directory"
  | .permissionDenied => "Permission denied"
  | .alreadyExists => "File exists"
  | .notDirectory => "Not a directory"
  | .isDirectory => "Is a directory"
  | e => e.message

/-- The paths of devices that give octets without end. -/
def endlessPaths : List String := ["/dev/zero", "/dev/urandom", "/dev/random"]

def inputPaths : List String := ["-", "/dev/stdin"]

/-- The octets that a path names; a hyphen names standard input. -/
def contentOf (path : Octets) : Act (Except IoError Octets) := do
  let p := Octets.toText path
  if p ∈ inputPaths then return .ok (← Act.readAll)
  else if p = Act.nullPath then return .ok []
  else if p ∈ endlessPaths then Act.halt .late
  else Act.readFile p

/-- How a tool reports a file that it cannot read. -/
abbrev Report := String → IoError → String

/-- Reports the path and the reason behind some words. -/
def report (words : String) : Report := fun path e =>
  words ++ path ++ ": " ++ reason e

/-- Reports whether a path could not be opened or not be read. -/
def openReport (tool : String) : Report := fun path e =>
  if e = .isDirectory then tool ++ ": error reading '" ++ path ++ "': " ++ reason e
  else tool ++ ": cannot open '" ++ path ++ "' for reading: " ++ reason e

/-- The contents of files with their names, or of standard input if there is no file, and the
status: files that cannot be read are reported. -/
def contents (report : Report) (paths : List Octets) : Act (List (Octets × Octets) × Nat) := do
  if paths.isEmpty then return ([([], ← Act.readAll)], 0)
  else
    let mut out := []
    let mut status := 0
    for path in paths do
      match ← contentOf path with
      | .ok cs => out := out ++ [(path, cs)]
      | .error e =>
        Act.complain (report (Octets.toText path) e)
        status := 1
    return (out, status)

/-- The lines of some octets, without line feeds. -/
def linesOf (cs : Octets) : List Octets :=
  let ps := Text.pieces cs
  if ps.getLast? = some [] then ps.dropLast else ps

def unlines (ls : List Octets) : Octets :=
  ls.flatMap (· ++ ['\n'])

/-- The lines with their line feeds, the last one as it stands. -/
def rawLines (cs : Octets) : List Octets :=
  match (Text.pieces cs).reverse with
  | [] => []
  | last :: before =>
    before.reverse.map (· ++ ['\n']) ++ if last.isEmpty then [] else [last]

def fieldsOf (separator : Char) : Octets → List Octets
  | [] => [[]]
  | c :: cs =>
    match fieldsOf separator cs with
    | f :: fs => if c = separator then [] :: f :: fs else (c :: f) :: fs
    | [] => [[c]]

/-- The lines of an input, which a line feed or a zero ends. -/
def recordsOf (byZeros : Bool) (cs : Octets) : List Octets :=
  let ps := fieldsOf (if byZeros then '\x00' else '\n') cs
  if ps.getLast? = some [] then ps.dropLast else ps

/-- Lines with the line feeds or zeros that end them. -/
def unrecords (byZeros : Bool) (ls : List Octets) : Octets :=
  ls.flatMap (· ++ [if byZeros then '\x00' else '\n'])

/-- The worse of a status and the status of writing. -/
def finishing (status : Nat) (cs : Octets) : Act Nat := do
  return max status (← Act.write cs)

/-- Octets behind blanks that fill them up to a width. -/
def padded (width : Nat) (cs : Octets) : Octets :=
  List.replicate (width - cs.length) ' ' ++ cs

/-- Writes octets to a file; the reason if that is not possible. -/
def writeFile (path : Octets) (append : Bool) (cs : Octets) : Act (Option IoError) := do
  match ← Act.openOutput (Octets.toText path) append with
  | .error e => return some e
  | .ok c =>
    Act.withChannels (do
      Act.setChannel 1 c
      return true) (do
      let _ ← Act.write cs)
    return none

end Tool

end Punctual.Shell
