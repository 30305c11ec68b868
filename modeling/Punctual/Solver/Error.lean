import Punctual.Files.Error

/-!
# Errors of a model checker
-/

namespace Punctual

/-- Why a model checker gave no answer. -/
inductive SolverError
  /-- There is no program to start. -/
  | emptyCommand
  /-- The program could not be started. -/
  | spawn (command : String) (e : IoError)
  /-- The output could not be read. -/
  | io (e : IoError)
  /-- The program ended its interactive session. -/
  | channelClosed
  /-- The answer is none of those that were asked for. -/
  | unexpectedOutput (output : String)
  deriving DecidableEq, Repr

/-- The text that reports the error. -/
def SolverError.message : SolverError → String
  | .emptyCommand => "No model checker command given"
  | .spawn command e =>
    "Failed to start model checker '" ++ command ++ "': " ++ e.message ++ ". Is it installed?"
  | .io e => "I/O error while running the model checker: " ++ e.message
  | .channelClosed => "The model checker closed the interactive session"
  | .unexpectedOutput output => "Unexpected answer from the model checker: " ++ output

end Punctual
