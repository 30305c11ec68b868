/-!
# Faults and stopped runs

A fault is an arithmetic step without a result: a time that leaves the 64-bit range, a count that
leaves the 32-bit range, or a duration that cannot be formed. A fault is no error that a caller
handles; it ends the whole run, and all effects of the run up to it remain.
-/

namespace Punctual

/-- An arithmetic step without a result. -/
inductive Fault
  /-- A sum left the range of its type. -/
  | sumOutOfRange
  /-- A difference left the range of its type. -/
  | differenceOutOfRange
  /-- A negative number of seconds is no duration. -/
  | negativeSeconds
  /-- A number of seconds is no duration because it is too large, or no number. -/
  | excessiveSeconds
  deriving DecidableEq, Repr

/-- The text that reports a fault. -/
def Fault.message : Fault → String
  | .sumOutOfRange => "attempt to add with overflow"
  | .differenceOutOfRange => "attempt to subtract with overflow"
  | .negativeSeconds => "cannot convert float seconds to Duration: value is negative"
  | .excessiveSeconds =>
    "cannot convert float seconds to Duration: value is either too big or NaN"

/-- Why a run ended without a result: an error of its own kind, or a fault. -/
inductive Stop (ε : Type)
  | error (e : ε)
  | fault (f : Fault)
  deriving DecidableEq, Repr

/-- The same stop with its error read as another kind of error. -/
def Stop.mapError {ε ε' : Type} (f : ε → ε') : Stop ε → Stop ε'
  | .error e => .error (f e)
  | .fault x => .fault x

/-- An action on a state `σ` that may stop. What it did to the state before it stopped remains. -/
abbrev Action (ε σ : Type) := EStateM (Stop ε) σ

namespace Action

variable {ε σ α : Type}

/-- Stops with an error. -/
def fail (e : ε) : Action ε σ α :=
  throw (.error e)

/-- The result of a computation that may end in a fault. -/
def ofFault : Except Fault α → Action ε σ α
  | .ok a => pure a
  | .error f => throw (.fault f)

/-- The result of a computation that may end in an error. -/
def ofExcept : Except ε α → Action ε σ α
  | .ok a => pure a
  | .error e => fail e

end Action

end Punctual
