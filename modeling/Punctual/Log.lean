/-!
# Logs

What a run reports on the side, in order. An action that fails keeps what it has reported.
-/

namespace Punctual

/-- How much a report matters. -/
inductive Level
  | info
  | warn
  deriving DecidableEq, Repr

/-- One report. -/
structure Report where
  level : Level
  text : String
  deriving DecidableEq, Repr

/-- Reports in order. -/
abbrev Log := List Report

/-- An action that reports and may fail. -/
abbrev Logged (ε : Type) := EStateM ε Log

namespace Log

/-- The texts of the warnings. -/
def warnings (log : Log) : List String :=
  (log.filter (·.level = .warn)).map (·.text)

end Log

namespace Logged

variable {ε α : Type}

/-- Reports something. -/
def report (level : Level) (text : String) : Logged ε Unit :=
  modify (· ++ [⟨level, text⟩])

/-- Reports something worth knowing. -/
def info (text : String) : Logged ε Unit :=
  report .info text

/-- Reports something that may be wrong. -/
def warn (text : String) : Logged ε Unit :=
  report .warn text

/-- The result of a computation that may fail. -/
def ofExcept : Except ε α → Logged ε α
  | .ok a => pure a
  | .error e => throw e

/-- The result together with all reports. -/
def outcome (act : Logged ε α) : Except ε α × Log :=
  match act [] with
  | .ok a log => (.ok a, log)
  | .error e log => (.error e, log)

end Logged

end Punctual
