import Punctual.Check.Artifact
import Punctual.Check.Metadata
import Punctual.Model.Combine
import Punctual.Specification.Deadlines

/-!
# Assembling the model of a task

The model of a task is combined from its deadline specification, the constraints of the initial
state, and the files that metadata list for it. A combiner makes one model text of model files; it
may do so itself or leave it to a program.

A combiner may change files, report, and keep a state beside them, but it does not talk to the model
checker: what it does leaves no exchange.
-/

namespace Punctual

/-- What a combiner leaves: a model text or the reason why there is none, its reports, and the files
and the state behind it. -/
structure Combination (σ : Type) where
  result : Except CombineError String
  reports : Log
  tree : Tree
  solver : σ

/-- The world after a combination. -/
def Combination.settle {σ : Type} (c : Combination σ) (w : World σ) : World σ :=
  { w with tree := c.tree, log := w.log ++ c.reports, solver := c.solver }

/-- Makes one model text of model files. -/
abbrev Combiner (σ : Type) :=
  List String → CombineOptions → Tree → σ → Combination σ

namespace Combiner

variable {σ : Type}

/-- Reads model files. -/
def readSources (tree : Tree) : List String → Except CombineError (List String)
  | [] => .ok []
  | path :: paths =>
    match tree.readText path with
    | .error e => .error (.io path e)
    | .ok text => (readSources tree paths).map (text :: ·)

/-- What is reported about combined files. -/
def summary (files : List String) (context : Context) : String :=
  "Combined " ++ toString files.length ++ " file(s), declaring " ++
    toString context.vars.length ++ " state and " ++ toString context.ivars.length ++
    " input variable(s)"

/-- Combines the texts of files, from no declared variable. -/
def combineFiles (tree : Tree) (files : List String) (options : CombineOptions) :
    Logged CombineError String := do
  let sources ← Logged.ofExcept (readSources tree files)
  let (model, context) ← combine sources options .empty
  Logged.info (summary files context)
  return model

/-- The combiner that does all itself. -/
def builtin : Combiner σ := fun files options tree solver =>
  let (result, reports) := (combineFiles tree files options).outcome
  ⟨result, reports, tree, solver⟩

end Combiner

namespace Check

variable {σ : Type}

/-- Lets a combiner act. -/
def combined (act : Tree → σ → Combination σ) : Check σ String := fun w =>
  let c := act w.tree w.solver
  match c.result with
  | .ok model => .ok model (c.settle w)
  | .error e => .error (.error (.combine e)) (c.settle w)

/-- The files that metadata list for a task, if there is metadata. -/
def metadataFiles (metadata : Option Metadata) (t : Task) : Check σ (List String) := do
  match metadata with
  | none => return []
  | some m =>
    (m.warnings t).forM warn
    return m.filesFor t

/-- Combines the model of a task and writes it; gives its path and its text. -/
def assemble (combiner : Combiner σ) (options : CombineOptions) (metadata : Option Metadata)
    (dir : String) (spec : DeadlineSpec) (state : PlantState) (t : Task) :
    Check σ (String × String) := do
  let schedulePath ← Artifact.write dir .schedule spec.text
  let statePath ← Artifact.write dir .state state.initText
  let files ← metadataFiles metadata t
  let model ← combined (combiner (schedulePath :: statePath :: files) options)
  let path ← Artifact.write dir .combined model
  info ("Combined model of task " ++ t.text ++ " written to " ++ path)
  return (path, model)

end Check

end Punctual
