import Punctual.Check.World
import Punctual.Json.Writer

/-!
# Artifacts

The files that a check leaves in its output directory. Those who read the results look for a run
on which the task meets its deadline, and for the delay of a task that cannot.
-/

namespace Punctual

/-- The files of a check. -/
inductive Artifact
  /-- The deadline specification of the task. -/
  | schedule
  /-- The constraints of the initial state. -/
  | state
  /-- The combined model. -/
  | combined
  /-- The model of the latest bounded model checking run. -/
  | bmc
  /-- A run on which the task meets its deadline. -/
  | path
  /-- The delay of the task. -/
  | delay
  deriving DecidableEq, Repr

namespace Artifact

/-- The name of the file. -/
def fileName : Artifact → String
  | .schedule => "schedule.smv"
  | .state => "state.smv"
  | .combined => "combined.smv"
  | .bmc => "bmc.smv"
  | .path => "path.cex"
  | .delay => "delay.json"

/-- The path of the file in a directory. -/
def pathIn (a : Artifact) (dir : String) : String :=
  Path.join dir a.fileName

/-- What stands for a run as long as none is known. -/
def placeholder : String := "--"

/-- The lines of a run as they are written. -/
def traceText (lines : List String) : String :=
  Text.unlines (lines.map Text.trimEnd)

/-- Makes the output directory. -/
def makeDirectory (tree : Tree) (dir : String) : Except CheckError Tree :=
  match tree.makeDirectories dir with
  | .ok tree => .ok tree
  | .error e => .error (.artifact dir e)

/-- Writes a file of the output directory. -/
def store (tree : Tree) (dir : String) (a : Artifact) (text : String) :
    Except CheckError Tree :=
  match tree.writeText (a.pathIn dir) text with
  | .ok tree => .ok tree
  | .error e => .error (.artifact (a.pathIn dir) e)

variable {σ : Type}

/-- Writes a file of the output directory and gives its path. -/
def write (dir : String) (a : Artifact) (text : String) : Check σ String := fun w =>
  match store w.tree dir a text with
  | .ok tree => .ok (a.pathIn dir) { w with tree := tree }
  | .error e => .error (.error e) w

/-- Marks the run as not known. -/
def writePlaceholder (dir : String) : Check σ String :=
  write dir .path placeholder

/-- Writes the lines of a run. -/
def writePath (dir : String) (lines : List String) : Check σ String :=
  write dir .path (traceText lines)

end Artifact

/-- What is known about the delay of a task. -/
structure DelayRecord where
  time : Time
  absoluteTime : Json.Value
  horizon : Window
  task : Task
  delay : Time

/-- The record as data, spread over lines. -/
def DelayRecord.text (r : DelayRecord) : String :=
  let window (level : Nat) (w : Window) :=
    Json.spreadList level [toString w.opens, toString w.closes]
  Json.spreadObject 0
    [ ("time", toString r.time),
      ("absolute_time", r.absoluteTime.spread 1),
      ("horizon", window 1 r.horizon),
      ("task", Json.spreadList 1
        [Json.writeText r.task.unit, Json.writeText r.task.name, window 2 r.task.window]),
      ("delay", toString r.delay) ]

/-- What every record about a task in a state has in common. -/
structure Recorder where
  dir : String
  time : Time
  absoluteTime : Json.Value
  horizon : Window
  task : Task

namespace Recorder

/-- The recorder for a task of a schedule in a state. -/
def ofTask (dir : String) (schedule : Schedule) (state : PlantState) (task : Task) : Recorder :=
  ⟨dir, state.time, state.absoluteTime, schedule.horizon, task⟩

/-- The distance from the deadline to the first one that may be feasible, if `lower` is
infeasible. -/
def delayAfter (lower deadline : Time) : Except Fault Time := do
  Time.add (← Time.sub lower deadline) 1

variable {σ : Type}

/-- Records that the deadline `lower` is infeasible. -/
def record (r : Recorder) (lower : Time) : Check σ Time := do
  let delay ← Action.ofFault (delayAfter lower r.task.deadline)
  let entry : DelayRecord := ⟨r.time, r.absoluteTime, r.horizon, r.task, delay⟩
  let _ ← Artifact.write r.dir .delay entry.text
  Check.info ("Task " ++ r.task.text ++ " is delayed by at least " ++ toString delay ++
    " time step(s)")
  return delay

end Recorder

end Punctual
