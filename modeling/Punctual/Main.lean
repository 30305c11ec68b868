import Punctual.CommandLine.Programs
import Punctual.CommandLine.Sources
import Punctual.CommandLine.Transcript

/-!
# The program

Reads the files that a call can read, carries the call out, and writes the files that have changed.
-/

namespace Punctual

open CommandLine

/-- The tree with what stands at a path, if anything does. -/
def loadPath (tree : Tree) (path : String) : IO Tree := do
  let tree := if Path.isAbsolute path then tree.put Place.root .directory else tree
  try
    return tree.withFile path (← IO.FS.readBinFile path)
  catch e =>
    match e with
    | .inappropriateType .. =>
      return (tree.makeDirectories path).toOption.getD tree
    | _ => return tree

/-- Reads the files that a call can read. -/
def loadCall (environment : List (String × String)) (call : Call) : IO Tree := do
  let tree ← call.command.paths.foldlM loadPath .empty
  let further := call.command.listedPaths tree ++ programWords tree environment call.command
  further.foldlM loadPath tree

/-- Writes what has changed between two trees. -/
def saveChanges (before after : Tree) : IO Unit := do
  for (place, node) in after.entries do
    if before.node? place ≠ some node then
      match node with
      | .directory => IO.FS.createDirAll place.path
      | .file bytes => IO.FS.writeBinFile place.path bytes
  for (place, node) in before.entries do
    if node ≠ .directory ∧ (after.node? place).isNone then IO.FS.removeFile place.path

/-- The environment variables that configure a call. -/
def readVariables : IO (List (String × String)) :=
  variableNames.filterMapM fun name => do
    return (← IO.getEnv name).map (name, ·)

/-- Prints what is to be printed; gives the exit code. -/
def deliver (t : Transcript) : IO UInt32 := do
  IO.print t.output
  IO.eprint t.errors
  return t.code.toUInt32

/-- Carries out a call with the files around the working directory. -/
def runCall (call : Call) : IO UInt32 := do
  let environment ← readVariables
  let tree ← loadCall environment call
  let t := call.transcript .byName environment (startWorld tree)
  saveChanges tree t.tree
  deliver t

end Punctual

def main (args : List String) : IO UInt32 := do
  match Punctual.CommandLine.Call.parse args with
  | .ok call => Punctual.runCall call
  | .error e => Punctual.deliver (e.transcript .empty)
