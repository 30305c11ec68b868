import Punctual.Schedule.Basic

/-!
# The order of tasks

Tasks are worked through earliest deadline first; tasks with the same deadline stay in the order
of the schedule. The active tasks at a time are found as positions in this order.
-/

namespace Punctual

/-- Puts a task in front of the first one whose deadline is not earlier. -/
def insertByDeadline (t : Task) : List Task → List Task
  | [] => [t]
  | u :: us => if t.deadline ≤ u.deadline then t :: u :: us else u :: insertByDeadline t us

/-- The tasks, earliest deadline first; equal deadlines keep their order. -/
def byDeadline : List Task → List Task
  | [] => []
  | t :: ts => insertByDeadline t (byDeadline ts)

theorem insertByDeadline_perm (t : Task) (ts : List Task) :
    (insertByDeadline t ts).Perm (t :: ts) := by
  induction ts with
  | nil => exact .refl _
  | cons u us ih =>
    rw [insertByDeadline]
    split
    · exact .refl _
    · exact (ih.cons u).trans (.swap t u us)

theorem byDeadline_perm (ts : List Task) : (byDeadline ts).Perm ts := by
  induction ts with
  | nil => exact .refl _
  | cons t ts ih => exact (insertByDeadline_perm t _).trans (ih.cons t)

namespace Schedule

/-- All tasks of the schedule, earliest deadline first. -/
def ordered (s : Schedule) : List Task :=
  byDeadline s.units.tasks

/-- A task runs at a time, and on the given unit if one is given. -/
def isCandidate (now : Time) (unit : Option String) (t : Task) : Bool :=
  t.isActiveAt now && unit.all (· = t.unit)

/-- The positions of the candidates in a list of tasks whose first position is given. -/
def positionsFrom (now : Time) (unit : Option String) : Nat → List Task → List Nat
  | _, [] => []
  | i, t :: ts =>
    if isCandidate now unit t then i :: positionsFrom now unit (i + 1) ts
    else positionsFrom now unit (i + 1) ts

/-- The positions of the active tasks in a list of tasks. -/
def positions (ts : List Task) (now : Time) (unit : Option String) : List Nat :=
  positionsFrom now unit 0 ts

/-- The active tasks, earliest deadline first. -/
def active (s : Schedule) (now : Time) (unit : Option String) : List Task :=
  (positions s.ordered now unit).filterMap (s.ordered[·]?)

end Schedule

end Punctual
