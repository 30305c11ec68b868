import Punctual.Check.Delay
import Punctual.Check.World
import Punctual.Specification.Deadlines

/-!
# Exact feasibility

In a session the model checker is asked whether the task can be completed by its deadline. If it
cannot, the smallest feasible deadline is searched for, each time asking about the same occurrence
with another deadline. Every deadline that turns out to be infeasible is handed on at once, so that
a search that breaks off leaves what it has found.
-/

namespace Punctual

/-- What the search in a session gives. -/
inductive Reachability
  /-- The deadline can be met on a path. -/
  | feasible (path : String)
  /-- The deadline cannot be met; a later one was searched for. -/
  | infeasible (bounds : DelayBounds)
  /-- The deadline cannot be met; no later one was searched for. -/
  | delayAssumed (bounds : DelayBounds)

namespace Check

variable {σ : Type}

/-- The deadline specification of a schedule; shared counter variables are reported. -/
def specify (counts : Counts) (s : Schedule) : Check σ DeadlineSpec := do
  let spec ← Action.ofFault (DeadlineSpec.ofSchedule counts s)
  spec.warnings.forM warn
  return spec

/-- A schedule made from another one. -/
def derived (s : Except ScheduleError Schedule) : Check σ Schedule :=
  match s with
  | .ok s => pure s
  | .error e => Action.fail (.derivedSchedule e)

/-- The states in which the task is completed by another deadline. -/
def relaxedTarget (s : Schedule) (counts : Counts) (t : Task) (deadline : Time) :
    Check σ String := do
  let relaxed := t.withDeadline deadline
  let sub ← derived (s.relaxed t deadline)
  let spec ← specify counts sub
  match spec.targetOf? relaxed with
  | some target => return target.reachedByDeadline
  | none => Action.fail (.missingTarget relaxed)

/-- Asks whether the task can be completed by a deadline. -/
def probe (backend : Backend σ) (s : Schedule) (counts : Counts) (t : Task) (deadline : Time) :
    Check σ (Option String) := do
  let target ← relaxedTarget s counts t deadline
  exchange (backend.getPath target) (.query target)

/-- Asks whether the task can be completed by a deadline, and hands the deadline on if not. -/
def probeRecorded (backend : Backend σ) (s : Schedule) (counts : Counts) (t : Task)
    (onInfeasible : Time → Check σ Unit) (deadline : Time) : Check σ Bool := do
  let path ← probe backend s counts t deadline
  if path.isSome then return true
  else
    onInfeasible deadline
    return false

/-- Decides in the open session whether the task meets its deadline, and searches for the smallest
feasible one if it does not and a delay is wanted. -/
def reachability (backend : Backend σ) (s : Schedule) (counts : Counts) (t : Task)
    (searchDelay : Bool) (onInfeasible : Time → Check σ Unit) : Check σ Reachability := do
  match ← probe backend s counts t t.deadline with
  | some path =>
    info ("Full model checking: task " ++ t.text ++ " meets its deadline")
    return .feasible path
  | none =>
    info ("Full model checking proved that task " ++ t.text ++ " can not meet its deadline " ++
      toString t.deadline)
    onInfeasible t.deadline
    let bounds := DelayBounds.ofDeadline t.deadline
    if !searchDelay then return .delayAssumed bounds
    else
      let ask := probeRecorded backend s counts t onInfeasible
      let bounds ← exponentialSearch ask s.horizon.closes bounds
      if bounds.upper.isNone then
        warn ("Could not find an upper bound: task " ++ t.text ++
          " can not complete within the horizon")
        return .infeasible bounds
      else
        return .infeasible (← binarySearch ask bounds)

end Check

end Punctual
