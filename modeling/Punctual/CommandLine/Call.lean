import Punctual.Check.Run
import Punctual.CommandLine.Usage
import Punctual.Text.Escape

/-!
# Calls

A call of the program names one of three commands and its options: a schedule is checked, model
files are combined, or the deadline specification of a schedule is written. `Call.parse` reads a
call from the words of a command line.
-/

namespace Punctual.CommandLine

/-- Options of all commands, about logging. -/
structure LogOptions where
  configFile : Option String
  debug : Bool
  deriving DecidableEq, Repr

def LogOptions.text (o : LogOptions) : String :=
  let file := match o.configFile with
    | some path => "Some(" ++ Text.quoted path ++ ")"
    | none => "None"
  "LoggerConfig \x7b logger_config_file: " ++ file ++ ", debug: " ++
    (if o.debug then "true" else "false") ++ " \x7d"

/-- The options of a check. -/
structure CheckCall where
  /-- The files of the schedule and of the state. -/
  input : List String
  outputDirectory : String
  /-- Only tasks of this unit are checked. -/
  keyUnit : Option String
  solverPath : Option String
  solverArguments : List String
  metadata : Option String
  combine : CombineOptions
  debugArgs : List DebugArg
  configFile : Option String
  /-- Full model checking is not used. -/
  noFallback : Bool
  /-- The timeout heuristic is trusted. -/
  trustHeuristic : Bool
  deriving DecidableEq, Repr

/-- The options of a combination. -/
structure CombineCall where
  input : List String
  combine : CombineOptions
  /-- The file for the combined model, which is printed if there is none. -/
  output : Option String
  deriving DecidableEq, Repr

/-- The options of a specification. -/
structure SpecCall where
  /-- The file of the schedule. -/
  input : String
  /-- The file of a state, whose constraints are written as well. -/
  state : Option String
  outputDirectory : String
  deriving DecidableEq, Repr

/-- A command with its options. -/
inductive Command
  | check (c : CheckCall)
  | combine (c : CombineCall)
  | spec (c : SpecCall)
  deriving DecidableEq, Repr

/-- A command, and the options of all commands. -/
structure Call where
  log : LogOptions
  command : Command
  deriving DecidableEq, Repr

/-- Where reports are printed. -/
inductive LogTarget
  | output
  | errors
  deriving DecidableEq, Repr

/-- Reports stay out of the way of a model that is printed. -/
def Command.logTarget : Command → LogTarget
  | .combine c => if c.output.isNone then .errors else .output
  | _ => .output

/-! ## Grammars -/

def combineSpecs : List OptionSpec :=
  [.several "plugins" none .text, .several "plugin-options" none .text,
    .several "variables" none .text]

def checkGrammar : Grammar :=
  { options :=
      [ ⟨"input", some 'i', .exactly 2, .path, true, true, false⟩,
        (OptionSpec.single "output-directory" (some 'o') .path).needed,
        .single "key-scheduling-unit" (some 'k') .text,
        .single "solver-path" none .text,
        { OptionSpec.several "solver-arguments" none .text with takesAll := true },
        .single "metadata" (some 'm') .path ] ++
      combineSpecs ++
      [ .several "debug-args" none (.word [DebugArg.simpleDelay.word]),
        .single "config-file" (some 'c') .path,
        .switch "no-full-mc" none,
        .switch "trust-bmc-timeout" none ]
    commands := []
    commandOptions := []
    hasVersion := false }

/-- What can stand behind the command `combine`. -/
def combineGrammar : Grammar :=
  { options :=
      (OptionSpec.several "input" (some 'i') .path).needed :: combineSpecs ++
        [.single "output" (some 'o') .path]
    commands := []
    commandOptions := []
    hasVersion := false }

def specGrammar : Grammar :=
  { options :=
      [ (OptionSpec.single "input" (some 'i') .path).needed,
        .single "state" (some 's') .path,
        (OptionSpec.single "output-directory" (some 'o') .path).needed ]
    commands := []
    commandOptions := []
    hasVersion := false }

def commandNames : List String :=
  ["check", "combine", "spec"]

def helpCommand : String := "help"

def callGrammar : Grammar :=
  { options := [.single "logger-config-file" none .text, .switch "debug" (some 'd')]
    commands := commandNames ++ [helpCommand]
    commandOptions := [("combine", "combine")]
    hasVersion := true }

/-! ## Reading calls -/

def combineOptionsOf (given : Given) : CombineOptions :=
  ⟨valuesOf given "plugins", valuesOf given "plugin-options", valuesOf given "variables"⟩

def CheckCall.ofGiven (given : Given) : CheckCall where
  input := valuesOf given "input"
  outputDirectory := (valueOf? given "output-directory").getD ""
  keyUnit := valueOf? given "key-scheduling-unit"
  solverPath := valueOf? given "solver-path"
  solverArguments := valuesOf given "solver-arguments"
  metadata := valueOf? given "metadata"
  combine := combineOptionsOf given
  debugArgs := (valuesOf given "debug-args").filterMap DebugArg.ofWord?
  configFile := valueOf? given "config-file"
  noFallback := isGiven given "no-full-mc"
  trustHeuristic := isGiven given "trust-bmc-timeout"

/-- The options of a combination from those given. -/
def CombineCall.ofGiven (given : Given) : CombineCall where
  input := valuesOf given "input"
  combine := combineOptionsOf given
  output := valueOf? given "output"

/-- The options of a specification from those given. -/
def SpecCall.ofGiven (given : Given) : SpecCall where
  input := (valueOf? given "input").getD ""
  state := valueOf? given "state"
  outputDirectory := (valueOf? given "output-directory").getD ""

/-- Asking for help about a command, which has to exist; no command has commands of its own. -/
def helpAbout : List String → UsageError
  | [] => .helpWanted
  | [w] => if w = helpCommand ∨ w ∈ commandNames then .helpWanted else .invalidCommand
  | _ => .invalidCommand

/-- Reads a command from its name and the words behind it. -/
def Command.parse (name : String) (ws : List String) : Except UsageError Command :=
  match name with
  | "check" => (readOptions checkGrammar ws).map fun given => .check (.ofGiven given)
  | "combine" => (readOptions combineGrammar ws).map fun given => .combine (.ofGiven given)
  | "spec" => (readOptions specGrammar ws).map fun given => .spec (.ofGiven given)
  | _ => .error (helpAbout ws)

/-- The options of all commands from those given. -/
def LogOptions.ofGiven (given : Given) : LogOptions where
  configFile := valueOf? given "logger-config-file"
  debug := isGiven given "debug"

/-- Reads a call from the words behind the name of the program. The options in front of the
command are completed after the command was read. -/
def Call.parse (ws : List String) : Except UsageError Call := do
  let (s, behind) ← Scan.words callGrammar ws .start
  match behind with
  | some (name, rest) =>
    let command ← Command.parse name rest
    let s ← s.settle
    return ⟨.ofGiven s.given, command⟩
  | none =>
    let s ← s.settle
    throw (if s.given.isEmpty then .nothingGiven else .missingCommand)

end Punctual.CommandLine
