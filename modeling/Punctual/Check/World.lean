import Punctual.Check.Error
import Punctual.Log
import Punctual.Solver.Backend

/-!
# The world of a check

All that a check can see and change besides its arguments: the files, the log, and the model
checker. Every exchange with the model checker is kept, in order, together with its answer.

An action that ends with an error or a fault leaves all its effects behind.
-/

namespace Punctual

/-- A request to the model checker and its answer. -/
inductive Exchange
  /-- A bounded model checking run on a model of the given text. -/
  | run (model : String) (bmcLength : Nat) (timeout : Duration)
      (answer : Except SolverError BmcAnswer)
  /-- The opening of a session on the model file at a path. -/
  | session (path : String) (answer : Except SolverError Unit)
  /-- A question whether a target can be reached. -/
  | query (target : String) (answer : Except SolverError (Option String))

/-- Files, log, and a model checker with state `σ`. -/
structure World (σ : Type) where
  tree : Tree
  log : Log
  solver : σ
  exchanges : List Exchange

/-- An action of a check. -/
abbrev Check (σ : Type) := Action CheckError (World σ)

namespace Check

variable {σ α : Type}

/-- Reports something. -/
def report (level : Level) (text : String) : Check σ Unit :=
  modify fun w => { w with log := w.log ++ [⟨level, text⟩] }

/-- Reports something worth knowing. -/
def info (text : String) : Check σ Unit :=
  report .info text

/-- Reports something that may be wrong. -/
def warn (text : String) : Check σ Unit :=
  report .warn text

/-- Lets the model checker act and keeps the exchange. -/
def exchange (act : SolverAction σ α) (entry : Except SolverError α → Exchange) : Check σ α :=
  fun w =>
    match act (w.tree, w.solver) with
    | .ok a (tree, solver) =>
      .ok a { w with tree := tree, solver := solver, exchanges := w.exchanges ++ [entry (.ok a)] }
    | .error e (tree, solver) =>
      .error (.error (.solver e))
        { w with tree := tree, solver := solver, exchanges := w.exchanges ++ [entry (.error e)] }

end Check

end Punctual
