import Punctual.Shell.Program
import Punctual.Solver.Backend
import Punctual.Solver.Config

/-!
# Model checkers as programs

A bounded model checking run is the run of a program that is stopped when its timeout is over. It is
looked at in an interval, so the time it took is a multiple of that interval, unless the timeout
cuts the last one short. A session is a program whose input stays open.
-/

namespace Punctual

open Shell

/-! ## Runs with a timeout -/

/-- The time after which a run is seen to have ended. -/
def seenAfter (interval timeout : Duration) (nanos : Nat) : Duration :=
  if interval.nanos = 0 then ⟨nanos⟩
  else
    let looks := Nat.max 1 ((nanos + interval.nanos - 1) / interval.nanos)
    ⟨Nat.min timeout.nanos (looks * interval.nanos)⟩

/-- Runs a program within a timeout, without input. Its output is all that it prints, errors
included. -/
def runWithin (interval timeout : Duration) (words : List String) (tree : Tree) :
    Except SolverError (BmcAnswer × Tree) :=
  match words with
  | [] => .error .emptyCommand
  | name :: args =>
    match Program.startError? tree name args with
    | some e => .error (.spawn name e)
    | none =>
      if timeout.nanos = 0 then .ok (⟨ByteArray.empty, none⟩, tree)
      else
        let (ending, m) := Program.run tree name args [] false (some timeout.nanos)
        let output := Octets.toByteArray (m.outputOf [Machine.outputSink, Machine.errorSink])
        let elapsed := match ending with
          | .exited _ => some (seenAfter interval timeout m.clock)
          | .waiting | .late => none
        .ok (⟨output, elapsed⟩, m.tree)

/-! ## Sessions -/

/-- A session with a program. -/
abbrev ProgramSession := Session Listener

/-- Starts a model checker for a session on a model file. -/
def SolverConfig.startSession (c : SolverConfig) (model : String) (tree : Tree) :
    Except SolverError ProgramSession :=
  let args := (c.sessionCommand model).tail
  match Program.startError? tree c.command args with
  | some e => .error (.spawn c.command e)
  | none => .ok (.start c.prompt (.ofProgram tree c.command args))

/-- The tree with what the program of a session changed between two states. -/
def ProgramSession.update (t : Tree) (before after : ProgramSession) : Tree :=
  t.withChanges before.peer.tree after.peer.tree

/-- Lets a session act in a tree. -/
def ProgramSession.run {α : Type} (act : EStateM SolverError ProgramSession α)
    (s : ProgramSession) (t : Tree) : Except SolverError α × ProgramSession × Tree :=
  match act s with
  | .ok a s' => (.ok a, s', ProgramSession.update t s s')
  | .error e s' => (.error e, s', ProgramSession.update t s s')

/-- Ends a session. -/
def ProgramSession.close (s : ProgramSession) (t : Tree) : Tree :=
  ProgramSession.update t s (Session.quit Listener.peer s)

/-- The model checker of a configuration, looked at in an interval. Its state is the open
session. -/
def SolverConfig.backend (c : SolverConfig) (interval : Duration) :
    Backend (Option ProgramSession) where
  runBmc model bmcLength timeout := do
    let (tree, open?) ← get
    match runWithin interval timeout (c.bmcCommand model bmcLength) tree with
    | .error e => throw e
    | .ok (answer, tree) =>
      set (tree, open?)
      return answer
  openSession model := do
    let (tree, open?) ← get
    let tree := (open?.map fun s => s.close tree).getD tree
    set (tree, (none : Option ProgramSession))
    match c.startSession model tree with
    | .error e => throw e
    | .ok s =>
      match s.run (Session.buildModel Listener.peer) tree with
      | (.ok (), s, tree) => set (tree, some s)
      | (.error e, s, tree) =>
        set (s.close tree, (none : Option ProgramSession))
        throw e
  getPath target := do
    match ← get with
    | (_, none) => throw .channelClosed
    | (tree, some s) =>
      let (answer, s, tree) := s.run (Session.getPath Listener.peer target) tree
      set (tree, some s)
      match answer with
      | .ok path => return path
      | .error e => throw e

end Punctual
