import Punctual.Check.Artifact
import Punctual.Solver.Config
import Punctual.Solver.Output
import Punctual.Specification.Target

/-!
# The search for an early completion

Bounded model checking refutes the claim that a task is never completed by a run that completes
it; the last time of the run is a completion time. The claim is then tightened to exclude all
completions that are not earlier, until a completion by the deadline is found or a claim is not
refuted.

The first run has a fixed timeout. Every further one gets a multiple of the longest time that a
refutation took. Since the completion times decrease and the search ends at the deadline, only
finitely many runs are made.
-/

namespace Punctual

/-- Options of bounded model checking. -/
structure BmcOptions where
  /-- The timeout of the first run. -/
  baseTimeout : Duration
  /-- The factor from the longest refutation to the next timeout. -/
  timeoutFactor : Float
  bmcLength : Nat

namespace BmcOptions

/-- The timeout of the first run if none is given. -/
def defaultBaseTimeout : Duration := .ofParts 30 0

/-- The factor if none is given. -/
def defaultTimeoutFactor : Float := 4.0

/-- The options if none is given. -/
def default : BmcOptions :=
  ⟨defaultBaseTimeout, defaultTimeoutFactor, SolverConfig.defaultBmcLength⟩

end BmcOptions

/-- What a search has found. -/
structure BmcSearch where
  /-- The earliest completion time. -/
  finalTime : Option Time
  /-- The trace of the run that completes at this time. -/
  counterexample : Option (List String)
  /-- How long each refutation took. -/
  solveTimes : List Duration
  /-- The timeout of the last run. -/
  timeout : Duration
  deriving DecidableEq, Repr

namespace BmcSearch

/-- Before the first run. -/
def start (baseTimeout : Duration) : BmcSearch :=
  ⟨none, none, [], baseTimeout⟩

/-- A run that completes by a deadline was found. -/
def meets (s : BmcSearch) (deadline : Time) : Bool :=
  s.finalTime.any (· ≤ deadline)

/-- The longest time a refutation took. -/
def longest? (s : BmcSearch) : Option Duration :=
  Duration.longest? s.solveTimes

/-- The last timeout was at least a multiple of the longest time that a refutation took, so that
the last run had plenty of time. Without a completion this says nothing. -/
def timeoutIsAmple (s : BmcSearch) (factor : Float) : Except Fault Bool :=
  match s.finalTime, Duration.longest? s.solveTimes with
  | some _, some longest => do
    let enough ← longest.scale factor
    return decide (enough ≤ s.timeout)
  | _, _ => .ok false

/-- The model with a claim behind it. -/
def claimModel (model claim : String) : String :=
  Text.trimEnd model ++ "\n" ++ "LTLSPEC " ++ claim ++ "\n"

/-- What a run says about its claim. -/
inductive RunResult
  /-- The search ends. -/
  | inconclusive (reports : Log)
  /-- The claim is refuted by a run that completes at a time. -/
  | refuted (time : Time) (trace : List String) (elapsed : Duration)

/-- Reads the answer to a run. -/
def judge (claim : String) (timeout : Duration) (answer : BmcAnswer) : RunResult :=
  match answer.elapsed with
  | none =>
    .inconclusive [⟨.info, "Bounded model checking timed out after " ++ timeout.written 1 ++ "s"⟩]
  | some elapsed =>
    let output := Text.decodeLossy answer.output
    if !Output.isRefuted output then .inconclusive []
    else
      match Output.finalTime output with
      | none =>
        .inconclusive [⟨.warn, "Counterexample of '" ++ claim ++
          "' does not assign time, stopping search"⟩]
      | some time => .refuted time (Output.traceLines output) elapsed

variable {σ : Type}

/-- Writes the model with a claim and lets the model checker check it. -/
def run (backend : Backend σ) (dir : String) (options : BmcOptions) (model claim : String)
    (timeout : Duration) : Check σ RunResult := do
  let text := claimModel model claim
  let path ← Artifact.write dir .bmc text
  let answer ← Check.exchange (backend.runBmc path options.bmcLength timeout)
    (.run text options.bmcLength timeout)
  let result := judge claim timeout answer
  if let .inconclusive reports := result then
    modify fun w => { w with log := w.log ++ reports }
  return result

/-- Takes a completion into the search. -/
def accept (s : BmcSearch) (time : Time) (trace : List String) (elapsed : Duration) :
    BmcSearch :=
  { s with
    finalTime := some time
    counterexample := some trace
    solveTimes := s.solveTimes ++ [elapsed] }

/-- Takes a completion into the search and reports it. -/
def acceptReported (s : BmcSearch) (time : Time) (trace : List String) (elapsed : Duration) :
    Check σ BmcSearch := do
  Check.info ("Bounded model checking found completion at time " ++ toString time ++ " (" ++
    elapsed.written 3 ++ "s)")
  return s.accept time trace elapsed

/-- The search with the timeout of the next run. -/
def extendTimeout (s : BmcSearch) (factor : Float) : Except Fault BmcSearch :=
  match Duration.longest? s.solveTimes with
  | none => .ok s
  | some longest => do return { s with timeout := ← longest.scale factor }

/-- Searches for completions before `known`, which lies after the deadline. -/
def searchBefore (backend : Backend σ) (dir : String) (options : BmcOptions) (model : String)
    (target : Target) (known : Time) (s : BmcSearch) : Check σ BmcSearch := do
  match ← run backend dir options model (target.notCompletedBefore known) s.timeout with
  | .inconclusive _ => return s
  | .refuted time trace elapsed =>
    if _hlate : known ≤ time then
      Check.warn ("Solver reported completion at " ++ toString time ++
        ", which is not earlier than the known completion, stopping search")
      return s
    else if _hmeets : time ≤ target.deadline then acceptReported s time trace elapsed
    else do
      let s ← acceptReported s time trace elapsed
      let s ← Action.ofFault (s.extendTimeout options.timeoutFactor)
      searchBefore backend dir options model target time s
termination_by (known - target.deadline).toNat
decreasing_by
  have hearlier := Int.not_le.1 _hlate
  have hmissed := Int.not_le.1 _hmeets
  omega

/-- Searches for the earliest completion of a target in a model. -/
def search (backend : Backend σ) (dir : String) (options : BmcOptions) (model : String)
    (target : Target) : Check σ BmcSearch := do
  let s := start options.baseTimeout
  match ← run backend dir options model target.neverCompletes s.timeout with
  | .inconclusive _ => return s
  | .refuted time trace elapsed =>
    let s ← acceptReported s time trace elapsed
    if time ≤ target.deadline then return s
    else
      let s ← Action.ofFault (s.extendTimeout options.timeoutFactor)
      searchBefore backend dir options model target time s

end BmcSearch

end Punctual
