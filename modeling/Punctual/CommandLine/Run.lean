import Punctual.CommandLine.Call
import Punctual.Configuration.Load

/-!
# Carrying out a call

A call is carried out in a world of files; the configuration comes from a file and from
environment variables. The programs that a configuration names, a model checker and maybe a
program that combines models, are given from outside.
-/

namespace Punctual.CommandLine

/-- The programs that can be used in a world with model checker state `σ`. -/
structure Programs (σ : Type) where
  /-- The model checker of a configuration, looked at in an interval. -/
  backend : SolverConfig → Duration → Backend σ
  /-- The combiner that starts a program with arguments. -/
  combiner : List String → Combiner σ

/-- Why a call was not carried out. -/
inductive CallError
  | usage (e : UsageError)
  | configuration (e : Configuration.LoadError)
  | setting (e : ConfigurationError)
  /-- A check needs two input files. -/
  | wrongInput
  /-- A check could not begin. -/
  | notBegun (e : CheckError)
  /-- A check failed. -/
  | check (e : CheckError)
  | combine (e : CombineError)
  /-- The combined model could not be written. -/
  | notWritten (path : String) (e : IoError)
  | schedule (path : String) (e : InputError ScheduleError)
  | state (path : String) (e : InputError StateError)

/-- The text that reports the error, if it has one of its own. -/
def CallError.message? : CallError → Option String
  | .usage _ => none
  | .configuration e => e.message?
  | .setting e => some e.message
  | .wrongInput => some "Expected a schedule and a state file as input"
  | .notBegun e => some e.message
  | .check _ => some "Feasibility check failed"
  | .combine _ => some "Failed to combine models"
  | .notWritten path _ => some ("Failed to write '" ++ path ++ "'")
  | .schedule path _ => some ("Failed to read schedule '" ++ path ++ "'")
  | .state path _ => some ("Failed to read state '" ++ path ++ "'")

/-- What a call gives. -/
inductive Outcome
  | verdict (v : Verdict)
  /-- Files were written. -/
  | written
  /-- A model is printed. -/
  | printed (model : String)

abbrev Carry (σ : Type) := Action CallError (World σ)

namespace Carry

variable {σ α : Type}

/-- An action of a check, its error read as one of a call. -/
def ofCheck (asError : CheckError → CallError) (act : Check σ α) : Carry σ α := fun w =>
  match act w with
  | .ok a w => .ok a w
  | .error e w => .error (e.mapError asError) w

def ofCombine (act : Tree → σ → Combination σ) : Carry σ String := fun w =>
  let c := act w.tree w.solver
  match c.result with
  | .ok model => .ok model (c.settle w)
  | .error e => .error (.error (.combine e)) (c.settle w)

/-- The result of a computation, its error read as one of a call. -/
def ofExcept {ε : Type} (asError : ε → CallError) (x : Except ε α) : Carry σ α :=
  Action.ofExcept (x.mapError asError)

def info (text : String) : Carry σ Unit :=
  ofCheck .notBegun (Check.info text)

def warn (text : String) : Carry σ Unit :=
  ofCheck .notBegun (Check.warn text)

end Carry

variable {σ : Type}

def loadConfiguration (environment : List (String × String)) (path : Option String) :
    Carry σ Configuration := do
  let w ← get
  Carry.ofExcept .configuration (Configuration.load w.tree environment path)

def combinerOf (programs : Programs σ) (c : Configuration) : Carry σ (Combiner σ) := do
  match c.combineProgram with
  | none => return Combiner.builtin
  | some argv =>
    Carry.info (Configuration.combineReport argv)
    return programs.combiner argv

/-- The model checker of a configuration and a call. -/
def backendOf (programs : Programs σ) (c : Configuration) (call : CheckCall) :
    Carry σ (Backend σ) := do
  let s := c.solverWith call.solverPath call.solverArguments
  Carry.info (Configuration.solverReport s)
  return programs.backend s c.pollInterval

/-- Reads the metadata of a call, if there is any. -/
def readMetadata (path : Option String) : Carry σ (Option Metadata) := do
  match path with
  | none => return none
  | some path =>
    let w ← get
    return some (← Carry.ofExcept .notBegun (Metadata.ofFile w.tree path))

def makeOutput (dir : String) : Carry σ Unit := do
  let w ← get
  let tree ← Carry.ofExcept .notBegun (Artifact.makeDirectory w.tree dir)
  set { w with tree := tree }

/-- The warning that the timeout heuristic is trusted. -/
def trustWarning : String :=
  "Trusting the timeout heuristic of bounded model checking, infeasibility verdicts are NOT sound"

/-- The options of a check; flags of the call win over the configuration. -/
def checkOptions (c : Configuration) (call : CheckCall) : Carry σ CheckOptions := do
  let trusts := call.trustHeuristic || c.trustsHeuristic
  if trusts then Carry.warn trustWarning
  let bmc ← Carry.ofExcept .setting c.bmcOptions
  return {
    keyUnit := call.keyUnit
    bmc := bmc
    fallback := !call.noFallback && c.usesFallback
    trustHeuristic := trusts
    combine := c.combineOptions call.combine
    debugArgs := call.debugArgs }

def CheckCall.run (programs : Programs σ) (c : Configuration) (call : CheckCall) :
    Carry σ Verdict := do
  match call.input with
  | [schedulePath, statePath] => do
    let options ← checkOptions c call
    let metadata ← readMetadata call.metadata
    let combiner ← combinerOf programs c
    let backend ← backendOf programs c call
    makeOutput call.outputDirectory
    let checker : Checker σ := ⟨backend, combiner, metadata, options, call.outputDirectory⟩
    let verdict ← Carry.ofCheck .check (checker.checkFiles schedulePath statePath)
    Carry.info ("Results written to '" ++ call.outputDirectory ++ "'")
    return verdict
  | _ => Action.fail .wrongInput

def CombineCall.combined (programs : Programs σ) (c : Configuration) (call : CombineCall) :
    Carry σ String := do
  let combiner ← combinerOf programs c
  Carry.ofCombine (combiner call.input (c.combineOptions call.combine))

def CombineCall.deliver (call : CombineCall) (model : String) : Carry σ Outcome := do
  match call.output with
  | none => return .printed model
  | some path =>
    let w ← get
    let tree ← Carry.ofExcept (.notWritten path) (w.tree.writeText path model)
    set { w with tree := tree }
    Carry.info ("Combined model written to '" ++ path ++ "'")
    return .written

def writeState (dir path : String) : Carry σ Unit := do
  let w ← get
  let state ← Carry.ofExcept (.state path) (w.tree.readInput path PlantState.read)
  let written ← Carry.ofCheck .notBegun (Artifact.write dir .state state.initText)
  Carry.info ("Initial state written to '" ++ written ++ "'")

/-- Writes the deadline specification of a schedule, and then the constraints of a state. -/
def SpecCall.run (call : SpecCall) : Carry σ Unit := do
  let w ← get
  let s ← Carry.ofExcept (.schedule call.input) (w.tree.readInput call.input Schedule.read)
  let spec ← Carry.ofCheck .notBegun (Check.specify .empty s)
  makeOutput call.outputDirectory
  let path ← Carry.ofCheck .notBegun (Artifact.write call.outputDirectory .schedule spec.text)
  Carry.info ("Deadline specification of " ++ toString spec.targets.length ++
    " task(s) written to '" ++ path ++ "'")
  match call.state with
  | none => return ()
  | some path => writeState call.outputDirectory path

def Command.run (programs : Programs σ) (environment : List (String × String)) :
    Command → Carry σ Outcome
  | .check call => do
    let c ← loadConfiguration environment call.configFile
    let verdict ← call.run programs c
    Carry.info verdict.text
    return .verdict verdict
  | .combine call => do
    let c ← loadConfiguration environment none
    call.deliver (← call.combined programs c)
  | .spec call => do
    call.run
    return .written

/-- Reads a call from words and carries it out. -/
def carryOut (programs : Programs σ) (environment : List (String × String)) (ws : List String) :
    Carry σ Outcome := do
  let call ← Carry.ofExcept .usage (Call.parse ws)
  call.command.run programs environment

end Punctual.CommandLine
