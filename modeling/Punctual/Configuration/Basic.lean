import Punctual.Check.Run

/-!
# Configuration

What a user sets once rather than with every call: the model checker, the bounds of bounded model
checking, and how models are combined. Everything may be left out; the defaults are chosen where a
value is used, and values without meaning are refused only there.
-/

namespace Punctual

/-- The configured bounds of bounded model checking; times are in seconds. -/
structure BmcSettings where
  baseTimeout : Option Float
  timeoutFactor : Option Float
  bmcLength : Option Nat
  pollMillis : Option Nat

/-- A configuration. -/
structure Configuration where
  solver : Option SolverConfig
  bmc : BmcSettings
  /-- Full model checking is used if bounded model checking finds nothing. -/
  fallback : Option Bool
  /-- The timeout heuristic is trusted. -/
  trustHeuristic : Option Bool
  /-- The program that combines models, with its arguments. -/
  combineCommand : Option (List String)
  combine : Option CombineOptions

/-- A configured value without meaning. -/
inductive ConfigurationError
  /-- The base timeout is no duration. -/
  | invalidBaseTimeout (seconds : Float) (f : Fault)
  /-- The timeout factor is not positive. -/
  | invalidTimeoutFactor (factor : Float)

def ConfigurationError.message : ConfigurationError → String
  | .invalidBaseTimeout seconds f =>
    "Invalid base timeout " ++ Number.writePlain seconds ++ ": " ++ f.message
  | .invalidTimeoutFactor factor =>
    "Timeout factor must be a positive number, got " ++ Number.writePlain factor

def BmcSettings.none : BmcSettings :=
  ⟨.none, .none, .none, .none⟩

namespace Configuration

def empty : Configuration :=
  ⟨none, .none, none, none, none, none⟩

/-- How often a running model checker is looked at if nothing is configured. -/
def defaultPollInterval : Duration := .ofMillis 100

def solverConfig (c : Configuration) : SolverConfig :=
  c.solver.getD .default

/-- The model checker to use, with a program and arguments that replace those configured. -/
def solverWith (c : Configuration) (command : Option String) (args : List String) :
    SolverConfig :=
  let s := c.solverConfig
  { s with
    command := command.getD s.command
    args := if args.isEmpty then s.args else args }

/-- How often a running model checker is looked at. -/
def pollInterval (c : Configuration) : Duration :=
  (c.bmc.pollMillis.map Duration.ofMillis).getD defaultPollInterval

def baseTimeout (c : Configuration) : Except ConfigurationError Duration :=
  match c.bmc.baseTimeout with
  | none => .ok BmcOptions.defaultBaseTimeout
  | some seconds => (Duration.ofSeconds seconds).mapError (.invalidBaseTimeout seconds)

/-- The timeout factor to use: a finite number above zero. -/
def timeoutFactor (c : Configuration) : Except ConfigurationError Float :=
  let factor := c.bmc.timeoutFactor.getD BmcOptions.defaultTimeoutFactor
  match Number.Binary64.ofFloat factor with
  | .finite false (_ + 1) _ => .ok factor
  | _ => .error (.invalidTimeoutFactor factor)

/-- The options of bounded model checking to use. -/
def bmcOptions (c : Configuration) : Except ConfigurationError BmcOptions := do
  let timeout ← c.baseTimeout
  let factor ← c.timeoutFactor
  return ⟨timeout, factor, c.bmc.bmcLength.getD SolverConfig.defaultBmcLength⟩

/-- Full model checking is used, unless it is configured not to be. -/
def usesFallback (c : Configuration) : Bool :=
  c.fallback.getD true

/-- The timeout heuristic is trusted, if it is configured to be. -/
def trustsHeuristic (c : Configuration) : Bool :=
  c.trustHeuristic.getD false

/-- The combine options to use; lists that are given replace those configured. -/
def combineOptions (c : Configuration) (given : CombineOptions) : CombineOptions :=
  (c.combine.getD .none).overriddenBy given

/-- The program that combines models, if one is configured. -/
def combineProgram (c : Configuration) : Option (List String) :=
  c.combineCommand.filter fun argv => !argv.isEmpty

def solverReport (s : SolverConfig) : String :=
  "Using model checker '" ++ s.command ++ "'"

/-- The report about the program that combines models. -/
def combineReport (argv : List String) : String :=
  "Combining models with '" ++ " ".intercalate argv ++ "'"

end Configuration

end Punctual
