import Punctual.Schedule.Task

/-!
# Schedules

A schedule lists the tasks of each scheduling unit within a horizon. A schedule exists only if its
horizon is not empty and every window is not empty and closes within the horizon; a window may
open before the horizon does. `Schedule.ofUnits` finds the first window that breaks these rules.

Units and the tasks of a unit keep the order in which they were given.
-/

namespace Punctual

/-- A task in the list of its unit. -/
structure Slot where
  name : String
  window : Window
  deriving DecidableEq, Repr

/-- Why windows do not make a schedule. -/
inductive ScheduleError
  /-- The horizon closes before it opens. -/
  | invalidHorizon (horizon : Window)
  /-- A task's window closes before it opens. -/
  | invalidWindow (task : Task)
  /-- A task's deadline lies after the end of the horizon. -/
  | beyondHorizon (task : Task) (horizonEnd : Time)
  deriving DecidableEq, Repr

/-- The text that reports the error. -/
def ScheduleError.message : ScheduleError → String
  | .invalidHorizon h => "Horizon " ++ h.text ++ " ends before it begins"
  | .invalidWindow t =>
    "Task '" ++ t.name ++ "' of unit '" ++ t.unit ++ "' has invalid window " ++ t.window.text
  | .beyondHorizon t horizonEnd =>
    "Task '" ++ t.name ++ "' of unit '" ++ t.unit ++ "' ends at " ++ toString t.deadline ++
      ", after the end of the horizon (" ++ toString horizonEnd ++ ")"

/-- The task lists of the units, in order. -/
abbrev Units := List (String × List Slot)

/-- All tasks of the units, in order. -/
def Units.tasks (units : Units) : List Task :=
  units.flatMap fun (unit, slots) => slots.map fun s => ⟨unit, s.name, s.window⟩

/-- The window is not empty and closes by the end of the horizon. -/
def Window.FitsIn (w horizon : Window) : Prop :=
  w.opens ≤ w.closes ∧ w.closes ≤ horizon.closes

instance (w horizon : Window) : Decidable (w.FitsIn horizon) :=
  inferInstanceAs (Decidable (_ ∧ _))

/-- Tasks of scheduling units within a horizon. -/
structure Schedule where
  horizon : Window
  units : Units
  opens_le_closes : horizon.opens ≤ horizon.closes
  fitsIn : ∀ t ∈ units.tasks, t.window.FitsIn horizon
  deriving DecidableEq

/-- What keeps a task out of a horizon. -/
def Task.fault? (horizon : Window) (t : Task) : Option ScheduleError :=
  if t.window.closes < t.window.opens then some (.invalidWindow t)
  else if horizon.closes < t.window.closes then some (.beyondHorizon t horizon.closes)
  else none

theorem Task.fault?_eq_none_iff {horizon : Window} {t : Task} :
    t.fault? horizon = none ↔ t.window.FitsIn horizon := by
  unfold Task.fault? Window.FitsIn
  grind

namespace Schedule

/-- The schedule of some units, or the first window that keeps them from being one. -/
def ofUnits (horizon : Window) (units : Units) : Except ScheduleError Schedule :=
  if h : horizon.opens ≤ horizon.closes then
    match hfault : units.tasks.findSome? (Task.fault? horizon) with
    | some e => .error e
    | none =>
      .ok ⟨horizon, units, h, fun t ht =>
        Task.fault?_eq_none_iff.1 (List.findSome?_eq_none_iff.1 hfault t ht)⟩
  else .error (.invalidHorizon horizon)

/-- The number of task occurrences. -/
def taskCount (s : Schedule) : Nat :=
  s.units.tasks.length

/-- The schedule with the same horizon that holds one task only. -/
def single (s : Schedule) (t : Task) : Except ScheduleError Schedule :=
  ofUnits s.horizon [(t.unit, [⟨t.name, t.window⟩])]

/-- The schedule with the same horizon that holds one task only, with another deadline. -/
def relaxed (s : Schedule) (t : Task) (deadline : Time) : Except ScheduleError Schedule :=
  s.single (t.withDeadline deadline)

/-- The schedule as texts show it: a line for the horizon and one for each unit. -/
def text (s : Schedule) : String :=
  "horizon " ++ s.horizon.text ++ "\n" ++
    String.join (s.units.map fun (unit, slots) =>
      unit ++ ": " ++ ", ".intercalate (slots.map fun t => t.name ++ " " ++ t.window.text) ++
        "\n")

end Schedule

end Punctual
