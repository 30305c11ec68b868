import Punctual.Check.Assembly
import Punctual.Shell.Program

/-!
# Combining by a program

A combiner may leave its work to a program: it is started with the files and options as arguments,
and prints the combined model. How programs are started is given from outside.
-/

namespace Punctual

open Shell

/-- What a program that has ended leaves: how it ended, all that it has printed, and the files. -/
structure Finished where
  status : ExitStatus
  output : ByteArray
  errors : ByteArray
  tree : Tree

/-- Starts a program by its name with arguments and waits for its end. -/
abbrev Launcher := Tree → String → List String → Except IoError Finished

/-- Starts the programs of the shell. One that never ends leaves what it has printed so far. -/
def Launcher.shell : Launcher := fun tree name args =>
  match Program.startError? tree name args with
  | some e => .error e
  | none =>
    let (ending, m) := Program.run tree name args [] false none
    let printed (sink : Nat) := Octets.toByteArray (m.outputOf [sink])
    let status := match ending with
      | .exited status => status
      | .waiting | .late => .code 0
    .ok ⟨status, printed Machine.outputSink, printed Machine.errorSink, m.tree⟩

/-- Starts the program that combines files and takes what it prints. -/
def Combiner.delegated (launch : Launcher) (words files : List String) (options : CombineOptions)
    (tree : Tree) : Except CombineError (String × Tree) :=
  match combineCommandLine words files options with
  | [] => .error (.io "" (.other "empty combine command"))
  | name :: args =>
    match launch tree name args with
    | .error e => .error (.io name e)
    | .ok finished =>
      if finished.status = .code 0 then .ok (Text.decodeLossy finished.output, finished.tree)
      else
        .error (.externalFailed (" ".intercalate (name :: args)) finished.status
          (Text.decodeLossy finished.errors))

/-- The combiner that starts a program. -/
def Combiner.startedBy {σ : Type} (launch : Launcher) (words : List String) : Combiner σ :=
  fun files options tree solver =>
    match Combiner.delegated launch words files options tree with
    | .ok (model, tree) => ⟨.ok model, [], tree, solver⟩
    | .error e => ⟨.error e, [], tree, solver⟩

/-- The combiner that starts a program of the shell. -/
def Combiner.program {σ : Type} (words : List String) : Combiner σ :=
  Combiner.startedBy .shell words

end Punctual
