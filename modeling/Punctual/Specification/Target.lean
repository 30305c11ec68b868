import Punctual.PlantState
import Punctual.Specification.Counts

/-!
# Targets

A target is one occurrence of a task together with its deadline. In a model the occurrence is
completed when the counter variable of the task reaches the number of the occurrence. The
predicates and claims of this module are the formulas in which a model checker is asked about it.
-/

namespace Punctual

/-- The `count`-th occurrence of a task, and its deadline. -/
structure Target where
  unit : String
  name : String
  count : Nat
  deadline : Time
  deriving DecidableEq, Repr

namespace Target

/-- The target belongs to a task. -/
def isTargetOf (g : Target) (t : Task) : Bool :=
  g.unit = t.unit && g.name = t.name && g.deadline = t.deadline

/-- The variable that counts the occurrences. -/
def counter (g : Target) : String :=
  counterVariable g.unit g.name

/-- The states in which the occurrence is completed by a time. -/
def reachedBy (g : Target) (time : Time) : String :=
  "(" ++ g.counter ++ " = " ++ toString g.count ++ ") & (" ++ PlantState.timeVariable ++ " <= " ++
    toString time ++ ")"

/-- The states in which the occurrence is completed by its deadline. -/
def reachedByDeadline (g : Target) : String :=
  g.reachedBy g.deadline

/-- The claim that the occurrence is never completed. -/
def neverCompletes (g : Target) : String :=
  "G(" ++ g.counter ++ " < " ++ toString g.count ++ ")"

/-- The claim that the occurrence is not completed before a time. -/
def notCompletedBefore (g : Target) (time : Time) : String :=
  "G(!((" ++ g.counter ++ " >= " ++ toString g.count ++ ") & (" ++ PlantState.timeVariable ++
    " < " ++ toString time ++ ")))"

/-- The specification that every run which completes the occurrence in time violates. -/
def specification (g : Target) : String :=
  "SPEC AG(!(" ++ g.reachedByDeadline ++ "))"

/-- The target as texts show it. -/
def text (g : Target) : String :=
  "occurrence " ++ toString g.count ++ " of " ++ g.unit ++ "/" ++ g.name ++ " by " ++
    toString g.deadline

end Target

end Punctual
