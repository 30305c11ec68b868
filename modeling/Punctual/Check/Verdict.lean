import Punctual.Schedule.Task

/-!
# Verdicts
-/

namespace Punctual

/-- How it is known that a task meets its deadline. -/
inductive FeasibilityProof
  | bmc
  | fullMc
  deriving DecidableEq, Repr

/-- How it is known that a task cannot meet its deadline. -/
inductive InfeasibilityProof
  /-- Bounded model checking had plenty of time and found no earlier completion. -/
  | heuristic
  /-- Full model checking proved it. -/
  | fullMc
  /-- Full model checking proved it, and the delay was not searched for. -/
  | assumed
  deriving DecidableEq, Repr

/-- The word for the proof. -/
def FeasibilityProof.word : FeasibilityProof → String
  | .bmc => "Bmc"
  | .fullMc => "FullMc"

/-- The word for the proof. -/
def InfeasibilityProof.word : InfeasibilityProof → String
  | .heuristic => "Heuristic"
  | .fullMc => "FullMc"
  | .assumed => "Assumed"

/-- The result of a check. -/
inductive Verdict
  | noActiveTask
  /-- The task meets its deadline, completing at a time if it is known. -/
  | feasible (task : Task) (completion : Option Time) (proof : FeasibilityProof)
  /-- The task cannot meet its deadline; without a delay, no deadline in the horizon is
  feasible. -/
  | infeasible (task : Task) (delay : Option Time) (proof : InfeasibilityProof)
  /-- Nothing is known about the task. -/
  | undetermined (task : Task)
  deriving DecidableEq, Repr

namespace Verdict

/-- The task meets its deadline. -/
def isFeasible : Verdict → Bool
  | .feasible .. => true
  | _ => false

/-- The verdict as texts show it. -/
def text : Verdict → String
  | .noActiveTask => "no active task"
  | .feasible t completion proof =>
    "task " ++ t.text ++ " is feasible (" ++ proof.word ++ ")" ++
      match completion with
      | some time => ", completes at " ++ toString time
      | none => ""
  | .infeasible t delay proof =>
    "task " ++ t.text ++ " is infeasible (" ++ proof.word ++ ")" ++
      match delay with
      | some d => ", delay " ++ toString d
      | none => ", no feasible deadline within the horizon"
  | .undetermined t => "feasibility of task " ++ t.text ++ " is undetermined"

end Verdict

end Punctual
