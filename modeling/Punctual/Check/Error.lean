import Punctual.Model.Declaration
import Punctual.PlantState
import Punctual.Solver.Error

/-!
# Errors of a check
-/

namespace Punctual

/-- Why a metadata file gives no metadata. -/
inductive MetadataError
  | unreadable (e : IoError)
  | notData (f : Json.Flaw)
  /-- The files of all tasks are not given as a list. -/
  | invalidWildcard
  deriving DecidableEq, Repr

/-- The text that reports the error, but for flaws in data. -/
def MetadataError.message : MetadataError → String
  | .unreadable e => e.message
  | .notData _ => "Malformed JSON input"
  | .invalidWildcard => "entry '*' must be a list of files"

/-- Why a check gave no verdict. -/
inductive CheckError
  | schedule (path : String) (e : InputError ScheduleError)
  | state (path : String) (e : InputError StateError)
  /-- A schedule made from the given one breaks a rule. -/
  | derivedSchedule (e : ScheduleError)
  | metadata (path : String) (e : MetadataError)
  | solver (e : SolverError)
  | combine (e : CombineError)
  /-- A result could not be written. -/
  | artifact (path : String) (e : IoError)
  /-- The specification holds no target for the task. -/
  | missingTarget (t : Task)

/-- The text that reports the error. -/
def CheckError.message : CheckError → String
  | .schedule path e =>
    "Failed to read '" ++ path ++ "': " ++ e.message ScheduleError.message
  | .state path e => "Failed to read '" ++ path ++ "': " ++ e.message StateError.message
  | .derivedSchedule e => "Invalid schedule: " ++ e.message
  | .metadata path e => "Failed to read metadata '" ++ path ++ "': " ++ e.message
  | .solver e => e.message
  | .combine e => "Failed to combine model: " ++ e.message
  | .artifact path e => "Failed to write '" ++ path ++ "': " ++ e.message
  | .missingTarget t => "No deadline specification generated for task " ++ t.text

end Punctual
