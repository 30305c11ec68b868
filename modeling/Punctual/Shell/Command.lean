import Punctual.Shell.Builtin
import Punctual.Shell.Starter

/-!
# Commands by name

The name of a command stands for a keyword, a function, a command of the interpreter itself, or a
program. A name with a slash is the path of a program.
-/

namespace Punctual.Shell

namespace Command

/-- The commands of the interpreter that run scripts, programs or other commands. -/
def running : List String :=
  ["eval", ".", "source", "command", "exec", "type"]

/-- The interpreter has a command of the name. Only the one that speaks at length knows some. -/
def isOwn (m : Machine) (name : String) : Bool :=
  (running.contains name && (name != "source" || m.isWordy)) || (Builtin.byName? name).isSome

/-- What a name stands for. -/
inductive Meaning
  | function (f : Function)
  | own
  | program (p : Program.Found)
  | missing (e : IoError)

/-- What a name stands for; functions are passed over if that is wanted. -/
def meaning (m : Machine) (functions : Bool) (name : String) : Meaning :=
  match if functions then find? name m.functions else none with
  | some f => .function f
  | none =>
    if isOwn m name then .own
    else
      match Program.search m name with
      | .ok p => .program p
      | .error e => .missing e

/-- Why a command cannot be run, and the status for that. -/
def missingReport (m : Machine) (name : String) (e : IoError) : String × Nat :=
  let isPath := name.toList.contains '/'
  let isNowhere := e = .notFound || e = .notDirectory
  let reason :=
    if name = "" then "Permission denied"
    else if isNowhere && !m.isWordy then "not found"
    else if isNowhere && !isPath then "command not found"
    else Tool.reason e
  (name ++ ": " ++ reason, if isPath && !isNowhere then 126 else 127)

/-- Where the program of a name is, if it is there. A path leads to any file or directory. -/
def place? (m : Machine) (name : String) : Option String :=
  if name.toList.contains '/' then
    if (Program.known? name).isSome || m.tree.leadsSomewhere (m.pathFrom name) then some name
    else none
  else ((Program.search m name).toOption).map Program.Found.path

/-- Tells what a name stands for: in a sentence, or just the name or the path. -/
def describe (atLength : Bool) (name : Octets) : Act Nat := do
  let m ← get
  let text := Octets.toText name
  let line (short long : String) : Act Nat :=
    Act.write (Octets.ofText (if atLength then text ++ " is " ++ long else short) ++ ['\n'])
  if keywords.contains text then line text "a shell keyword"
  else if (find? text m.functions).isSome then line text "a shell function"
  else if isOwn m text then
    line text (if specialCommands.contains text then "a special shell builtin" else "a shell builtin")
  else
    match place? m text with
    | some path => line path path
    | none =>
      if atLength then
        let _ ← Act.write (Octets.ofText (text ++ ": not found\n"))
      return 127

def describeAll : Tool := fun args => do
  let mut status := 0
  for arg in args do
    if (← describe true arg) ≠ 0 then status := 127
  return status

end Command

end Punctual.Shell
