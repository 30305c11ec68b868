import Punctual.Check.Assembly
import Punctual.Check.Completion
import Punctual.Check.Reachability
import Punctual.Check.Verdict

/-!
# A check

A check takes the active task with the earliest deadline and decides whether it meets its
deadline. Bounded model checking searches for an early completion. If it finds none in time, the
task is declared infeasible by the timeout heuristic, if that is trusted, or it is decided by full
model checking, if that is enabled.

Before anything else the run on which the task meets its deadline is marked as not known, so that
no run of an earlier check is left.
-/

namespace Punctual

/-- A shortcut for trying out a check. -/
inductive DebugArg
  /-- The delay of an infeasible task is not searched for. -/
  | simpleDelay
  deriving DecidableEq, Repr

namespace DebugArg

/-- The word for the shortcut. -/
def word : DebugArg → String
  | .simpleDelay => "simple_delay"

/-- The shortcut of a word. -/
def ofWord? (word : String) : Option DebugArg :=
  match word with
  | "simple_delay" => some .simpleDelay
  | _ => none

/-- The text that reports a word without shortcut. -/
def unknownMessage (word : String) : String :=
  "Unknown debug argument '" ++ word ++ "'"

end DebugArg

/-- Options of a check. -/
structure CheckOptions where
  /-- Only tasks of this unit are checked. -/
  keyUnit : Option String
  bmc : BmcOptions
  /-- Full model checking is used if bounded model checking finds nothing. -/
  fallback : Bool
  /-- The timeout heuristic is trusted. -/
  trustHeuristic : Bool
  combine : CombineOptions
  debugArgs : List DebugArg

/-- All that a check works with: a model checker, a combiner, and where results go. -/
structure Checker (σ : Type) where
  backend : Backend σ
  combiner : Combiner σ
  metadata : Option Metadata
  options : CheckOptions
  dir : String

namespace Checker

variable {σ : Type}

/-- The task that a check is about: its position in the order of tasks, and how many tasks are
active. -/
def select (ordered : List Task) (now : Time) (keyUnit : Option String) :
    Option (Nat × Task × Nat) :=
  match Schedule.positions ordered now keyUnit with
  | [] => none
  | i :: is => (ordered[i]?).map fun t => (i, t, is.length + 1)

/-- Decides by full model checking. -/
def decideExactly (c : Checker σ) (s : Schedule) (recorder : Recorder) (counts : Counts)
    (t : Task) (modelPath : String) : Check σ Verdict := do
  Check.info ("Bounded model checking was inconclusive for task " ++ t.text ++
    ", running full model checking")
  Check.exchange (c.backend.openSession modelPath) (.session modelPath)
  let searchDelay := !(c.options.debugArgs.contains .simpleDelay)
  let found ← Check.reachability c.backend s counts t searchDelay fun lower => do
    let _ ← recorder.record lower
  let verdict ← match found with
    | .feasible path => do
      let _ ← Artifact.writePath c.dir (Output.traceLines path)
      pure (.feasible t (Output.finalTime path) .fullMc)
    | .infeasible bounds =>
      if bounds.upper.isNone then pure (.infeasible t none .fullMc)
      else do
        let delay ← Action.ofFault bounds.delay
        pure (.infeasible t (some delay) .fullMc)
    | .delayAssumed bounds => do
      let delay ← Action.ofFault bounds.delay
      pure (.infeasible t (some delay) .assumed)
  Check.info ("Result: " ++ verdict.text)
  return verdict

/-- The completion time by which the timeout heuristic declares the task infeasible, if it is
trusted and holds. -/
def heuristicTime (options : CheckOptions) (found : BmcSearch) : Except Fault (Option Time) := do
  if options.trustHeuristic then
    if ← found.timeoutIsAmple options.bmc.timeoutFactor then return found.finalTime
    else return none
  else return none

/-- Decides after bounded model checking found no completion in time. -/
def decideInconclusive (c : Checker σ) (s : Schedule) (state : PlantState) (counts : Counts)
    (t : Task) (modelPath : String) (found : BmcSearch) : Check σ Verdict := do
  let recorder := Recorder.ofTask c.dir s state t
  match ← Action.ofFault (heuristicTime c.options found) with
  | some time =>
    Check.warn ("Declaring task " ++ t.text ++
      " infeasible based on the bounded model checking timeout heuristic." ++
      " This result is NOT sound.")
    let lower ← Action.ofFault (Time.sub time 1)
    let delay ← recorder.record lower
    return .infeasible t (some delay) .heuristic
  | none =>
    if !c.options.fallback then
      Check.info ("Bounded model checking was inconclusive for task " ++ t.text ++
        ", full model checking is disabled")
      return .undetermined t
    else c.decideExactly s recorder counts t modelPath

/-- Checks a task, given the counts of all tasks before it. -/
def checkTask (c : Checker σ) (s : Schedule) (state : PlantState) (counts : Counts) (t : Task) :
    Check σ Verdict := do
  let sub ← Check.derived (s.single t)
  let spec ← Check.specify counts sub
  match spec.targetOf? t with
  | none => Action.fail (.missingTarget t)
  | some target =>
    let (path, model) ←
      Check.assemble c.combiner c.options.combine c.metadata c.dir spec state t
    let found ← BmcSearch.search c.backend c.dir c.options.bmc model target
    if found.meets t.deadline then
      if let some trace := found.counterexample then
        let _ ← Artifact.writePath c.dir trace
      Check.info ("Task " ++ t.text ++ " meets its deadline (bounded model checking)")
      return .feasible t found.finalTime .bmc
    else c.decideInconclusive s state counts t path found

/-- Checks the active task with the earliest deadline. -/
def checkActive (c : Checker σ) (s : Schedule) (state : PlantState) : Check σ Verdict := do
  match select s.ordered state.time c.options.keyUnit with
  | none =>
    Check.info ("No task active at time " ++ toString state.time)
    return .noActiveTask
  | some (i, t, active) =>
    if 1 < active then
      Check.warn (toString active ++ " tasks are active at time " ++ toString state.time ++
        ", only checking " ++ t.text)
    Check.info ("Checking task " ++ t.text ++ " at time " ++ toString state.time)
    let counts ← Action.ofFault (Counts.ofTasks (s.ordered.take i))
    c.checkTask s state counts t

/-- Checks a schedule in a state. -/
def check (c : Checker σ) (s : Schedule) (state : PlantState) : Check σ Verdict := do
  let _ ← Artifact.writePlaceholder c.dir
  c.checkActive s state

/-- Reads a schedule and a state from files and checks them. -/
def checkFiles (c : Checker σ) (schedulePath statePath : String) : Check σ Verdict := do
  let _ ← Artifact.writePlaceholder c.dir
  let w ← get
  match w.tree.readInput schedulePath Schedule.read with
  | .error e => Action.fail (.schedule schedulePath e)
  | .ok s =>
    match w.tree.readInput statePath PlantState.read with
    | .error e => Action.fail (.state statePath e)
    | .ok state => c.checkActive s state

end Checker

end Punctual
