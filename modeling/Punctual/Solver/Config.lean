/-!
# Configuration of a model checker

The program that is started, the arguments it always gets, and the prompt by which it asks for
commands in an interactive session.
-/

namespace Punctual

/-- How a model checker is started. -/
structure SolverConfig where
  command : String
  args : List String
  prompt : String
  deriving DecidableEq, Repr

namespace SolverConfig

/-- The prompt of the default model checker. -/
def defaultPrompt : String := "NuSMV > "

/-- The default model checker. -/
def default : SolverConfig :=
  ⟨"NuSMV", [], defaultPrompt⟩

/-- The bound of bounded model checking if none is given. -/
def defaultBmcLength : Nat := 100

/-- The command line of a bounded model checking run. -/
def bmcCommand (c : SolverConfig) (model : String) (bmcLength : Nat) : List String :=
  c.command :: c.args ++ ["-bmc", "-bmc_length", toString bmcLength, model]

/-- The command line of an interactive session. -/
def sessionCommand (c : SolverConfig) (model : String) : List String :=
  c.command :: c.args ++ ["-int", model]

end SolverConfig

end Punctual
