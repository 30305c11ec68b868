import Punctual.CommandLine.Run

/-!
# What a call reads

The files and environment variables that a call can read. Metadata names further files, so the
list grows once the metadata is known.
-/

namespace Punctual.CommandLine

/-- The configuration files that can be meant by a path. -/
def configurationPaths (path : String) : List String :=
  [path, path ++ ".toml", path ++ ".json"]

def Command.paths : Command → List String
  | .check c =>
    c.input ++ c.metadata.toList ++ (c.configFile.toList.flatMap configurationPaths) ++
      c.solverArguments ++ c.outputDirectory ::
        [Artifact.schedule, .state, .combined, .bmc, .path, .delay].map fun a =>
          a.pathIn c.outputDirectory
  | .combine c => c.input ++ c.output.toList
  | .spec c => c.input :: c.state.toList ++ [c.outputDirectory]

/-- The paths that the metadata of a command list. -/
def Command.listedPaths (tree : Tree) : Command → List String
  | .check c =>
    match c.metadata.map (Metadata.ofFile tree) with
    | some (.ok m) => m.allFiles
    | _ => []
  | _ => []

/-- The words of the program that combines models, which can be files too. -/
def programWords (tree : Tree) (environment : List (String × String)) (c : Command) : List String :=
  let file := match c with
    | .check c => c.configFile
    | _ => none
  match Configuration.load tree environment file with
  | .ok config => config.combineCommand.getD [] ++ config.solverConfig.args
  | .error _ => []

/-- The environment variables that set one value of a configuration. -/
def variableNames : List String :=
  ["SOLVER__COMMAND", "SOLVER__PROMPT", "BMC__BASE_TIMEOUT", "BMC__TIMEOUT_FACTOR",
    "BMC__BMC_LENGTH", "BMC__POLL_INTERVAL_MS", "FALLBACK_TO_FULL_MC",
    "TRUST_BMC_TIMEOUT_HEURISTIC"].map ("DEADLINE_" ++ ·)

end Punctual.CommandLine
