import Punctual.Model.Plugin

/-!
# Combining models

Model texts are combined to one model text: their fragments are merged, extra variables are
declared, and the selected plugins are applied. The context of declared variables goes in and out,
so that one combination can follow another.
-/

namespace Punctual

/-- Plugins by name, their options, and extra variables as declarations. -/
structure CombineOptions where
  plugins : List String
  pluginOptions : List String
  declarations : List String
  deriving DecidableEq, Repr

namespace CombineOptions

/-- No plugin, option or variable. -/
def none : CombineOptions :=
  ⟨[], [], []⟩

/-- No plugin, option or variable is given. -/
def isEmpty (o : CombineOptions) : Bool :=
  o.plugins.isEmpty && o.pluginOptions.isEmpty && o.declarations.isEmpty

/-- The options with every list replaced that the other options fill. -/
def overriddenBy (o other : CombineOptions) : CombineOptions :=
  { plugins := if other.plugins.isEmpty then o.plugins else other.plugins
    pluginOptions :=
      if other.pluginOptions.isEmpty then o.pluginOptions else other.pluginOptions
    declarations :=
      if other.declarations.isEmpty then o.declarations else other.declarations }

end CombineOptions

/-- Applies plugins one after another. -/
def applyPlugins : List Plugin → Model → Model × Log
  | [], m => (m, [])
  | p :: ps, m =>
    let (m, log) := p.apply m
    let (m, rest) := applyPlugins ps m
    (m, log ++ rest)

/-- The merged model of fragments and extra variables. -/
def mergeWithVariables (fs : List Fragment) (declarations : List String) : Merging Unit := do
  mergeFragments fs
  declarations.forM (mergeDeclaration .var)

/-- Combines model texts to one, from a context of variables that are declared already. -/
def combine (sources : List String) (options : CombineOptions) (context : Context) :
    Logged CombineError (String × Context) := do
  let plugins ← Logged.ofExcept (Plugin.select options.plugins options.pluginOptions)
  (sources.flatMap Fragment.warnings).forM Logged.warn
  let merged := mergeWithVariables (sources.map Fragment.parse) options.declarations (.start context)
  match merged with
  | .error e m => do
    m.warnings.forM Logged.warn
    throw e
  | .ok () m => do
    m.warnings.forM Logged.warn
    let (model, log) := applyPlugins plugins m.model
    modify (· ++ log)
    return (model.text, m.context)

/-- The command line of a program that combines model files: its own words, the command with its
files, and every list of options that is not empty. -/
def combineCommandLine (command files : List String) (options : CombineOptions) : List String :=
  let flagged (flag : String) (values : List String) :=
    if values.isEmpty then [] else flag :: values
  command ++ "--combine" :: "--input" :: files ++ flagged "--plugins" options.plugins ++
    flagged "--plugin-options" options.pluginOptions ++ flagged "--variables" options.declarations

end Punctual
