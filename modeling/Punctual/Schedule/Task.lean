import Punctual.Json.Reader
import Punctual.Json.Writer
import Punctual.Number.Range

/-!
# Windows and tasks

A window is a closed interval of time. A task is scheduled on a unit under a name, and has to be
completed within its window; the end of the window is its deadline.
-/

namespace Punctual

/-- A closed interval of time. -/
structure Window where
  opens : Time
  closes : Time
  deriving DecidableEq, Repr

namespace Window

/-- The time lies in the window, its ends included. -/
def contains (w : Window) (t : Time) : Bool :=
  w.opens ≤ t && t ≤ w.closes

/-- The window as texts show it. -/
def text (w : Window) : String :=
  "[" ++ toString w.opens ++ ", " ++ toString w.closes ++ "]"

/-- Reads a time. -/
def time : Json.Reader Time :=
  .int Time.lowest Time.highest

/-- Reads a window from a list of its two ends. -/
def reader : Json.Reader Window :=
  (Json.Reader.pair time time).map fun (opens, closes) => ⟨opens, closes⟩

/-- Writes a window as a list of its two ends. -/
def write (w : Window) : String :=
  Json.writeList [toString w.opens, toString w.closes]

end Window

/-- A task on a scheduling unit. -/
structure Task where
  unit : String
  name : String
  window : Window
  deriving DecidableEq, Repr

namespace Task

/-- The time by which the task has to be completed. -/
def deadline (t : Task) : Time :=
  t.window.closes

/-- The task can run at a time. -/
def isActiveAt (t : Task) (now : Time) : Bool :=
  t.window.contains now

/-- The same task with another deadline. -/
def withDeadline (t : Task) (deadline : Time) : Task :=
  { t with window := { t.window with closes := deadline } }

/-- The task as texts show it. -/
def text (t : Task) : String :=
  t.unit ++ "/" ++ t.name ++ " " ++ t.window.text

/-- Reads a task from a list of unit, name and window. -/
def reader : Json.Reader Task :=
  (Json.Reader.triple .text .text Window.reader).map fun (unit, name, window) =>
    ⟨unit, name, window⟩

/-- Writes a task as a list of unit, name and window. -/
def write (t : Task) : String :=
  Json.writeList [Json.writeText t.unit, Json.writeText t.name, t.window.write]

end Task

end Punctual
