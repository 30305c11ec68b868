import Punctual.Check.Delegation
import Punctual.CommandLine.Run

/-!
# What the program prints

What the program prints for the words of a command line, the code it ends with, and the files it
leaves. That is all that another program sees that starts it, so the program can be among those that
a combiner starts.
-/

namespace Punctual.CommandLine

/-- What the program leaves: all that it has printed, its exit code, and the files. -/
structure Transcript where
  output : String
  errors : String
  code : Nat
  tree : Tree

/-- The program as another program sees it. -/
def Transcript.finished (t : Transcript) : Finished :=
  ⟨.code t.code, Text.encode t.output, Text.encode t.errors, t.tree⟩

/-- Reports, each on a line of its own. -/
def logLines (log : Log) : String :=
  String.join (log.map fun r => r.text ++ "\n")

/-- The line about the reason why a call was not carried out. -/
def stopLine (stop : Stop CallError) : String :=
  let message := match stop with
    | .error e => e.message?.getD "invalid configuration"
    | .fault f => f.message
  "Error: " ++ message ++ "\n"

/-- The model that is printed, if there is one. -/
def Outcome.model : Outcome → String
  | .printed model => model
  | .verdict _ | .written => ""

/-- What is left of a call whose reports go to the target. -/
def LogTarget.transcript (target : LogTarget) (log : Log) (model errors : String) (code : Nat)
    (tree : Tree) : Transcript :=
  match target with
  | .output => ⟨logLines log ++ model, errors, code, tree⟩
  | .errors => ⟨model, logLines log ++ errors, code, tree⟩

/-- The usage of the program, in a line. -/
def usageLine : String :=
  "deadline check | combine | spec\n"

/-- What is left if there is no call; help is no failure. -/
def UsageError.transcript (e : UsageError) (tree : Tree) : Transcript :=
  match e with
  | .helpWanted | .versionWanted => ⟨usageLine, "", 0, tree⟩
  | _ => ⟨"", "usage: " ++ usageLine, 2, tree⟩

variable {σ : Type}

/-- What is left of a call that is carried out in a world. -/
def Call.transcript (programs : Programs σ) (environment : List (String × String)) (call : Call)
    (w : World σ) : Transcript :=
  match call.command.run programs environment w with
  | .ok outcome w => call.command.logTarget.transcript w.log outcome.model "" 0 w.tree
  | .error stop w => call.command.logTarget.transcript w.log "" (stopLine stop) 1 w.tree

/-- What is left of the words of a command line. -/
def transcript (programs : Programs σ) (environment : List (String × String)) (ws : List String)
    (w : World σ) : Transcript :=
  match Call.parse ws with
  | .ok call => call.transcript programs environment w
  | .error e => e.transcript w.tree

/-- The name under which the program is installed. -/
def installedName : String := "deadline"

end Punctual.CommandLine

namespace Punctual

/-- Programs are started as before, and where there is none of the name, the program itself can be
started, in an environment. -/
def Launcher.orItself {σ : Type} (launch : Launcher) (programs : CommandLine.Programs σ)
    (environment : List (String × String)) (solver : σ) : Launcher := fun tree name args =>
  match launch tree name args with
  | .error .notFound =>
    if name = CommandLine.installedName then
      .ok (CommandLine.transcript programs environment args ⟨tree, [], solver, []⟩).finished
    else .error .notFound
  | result => result

end Punctual
