import Punctual.Shell.Run
import Punctual.Solver.Session

/-!
# Programs

A program is started by its name with arguments, in a tree of files. The programs there are the
interpreter and the tools; the files of the tree can be read but not started.

A program whose input stays open is run again on all that it has heard whenever it hears more: its
output only grows, so what is new is the output behind the one before.
-/

namespace Punctual

/-- The tree with the changes that lead from the tree `before` to the tree `after`. -/
def Tree.withChanges (t before after : Tree) : Tree :=
  let kept := t.entries.filter fun (place, _) =>
    (before.node? place).isNone || (after.node? place).isSome
  let changed := after.entries.filter fun (place, n) => before.node? place ≠ some n
  changed.foldl (fun t (place, n) => t.put place n) ⟨kept⟩

namespace Shell

/-- How the run of a program ended. -/
inductive Ending
  | exited (status : ExitStatus)
  /-- The program waits for more input. -/
  | waiting
  /-- The program has run as long as it may. -/
  | late
  deriving DecidableEq, Repr

namespace Program

def act (name : String) (args : List String) : Act Unit := do
  modify fun m => { m with name := Octets.ofText name }
  Script.runKnown Script.bound ((known? name).getD "") (args.map Octets.ofText)

def endingOf (act : Act Unit) (m : Machine) : Ending × Machine :=
  match act m with
  | .ok () m => (.exited (.code m.status), m)
  | .error (.exit status) m => (.exited status, m)
  | .error .failed m => (.exited (.code 2), m)
  | .error (.leave ..) m | .error .finish m => (.exited (.code m.status), m)
  | .error .waiting m => (.waiting, m)
  | .error .late m | .error .endless m => (.late, m)

def run (tree : Tree) (name : String) (args : List String) (input : Octets) (staysOpen : Bool)
    (limit : Option Nat) : Ending × Machine :=
  let (ending, m) := endingOf (act name args) (.start (surrounded tree) input staysOpen limit)
  (ending, { m with tree := inner tree m.tree })

end Program

/-! ## Programs that go on hearing -/

/-- A program that was started in a tree, all that it has heard, its output so far, and the tree
it has made. -/
structure Listener where
  name : String
  args : List String
  start : Tree
  heard : Octets
  output : Octets
  tree : Tree
  ended : Bool

namespace Listener

def ofProgram (tree : Tree) (name : String) (args : List String) : Listener :=
  ⟨name, args, tree, [], [], tree, false⟩

def after (l : Listener) (text : String) : Listener :=
  let heard := l.heard ++ Octets.ofText text
  let (ending, m) := Program.run l.start l.name l.args heard true none
  { l with
    heard := heard
    output := m.outputOf [Machine.outputSink]
    tree := m.tree
    ended := ending ≠ .waiting }

def peer : Peer Listener where
  hear text l :=
    if l.ended then none
    else
      let l' := l.after text
      some (Octets.toBytes (l'.output.drop l.output.length), l')

end Listener

end Shell

end Punctual
