import Punctual.Duration
import Punctual.Files.Tree
import Punctual.Solver.Error

/-!
# Model checkers

A model checker checks the claims of a model file within bounds and a timeout, and answers, in a
session on one model file, whether targets can be reached. It may keep a state of any kind and may
change files; nothing else is asked of it, so its answers need not agree with one another.
-/

namespace Punctual

/-- What a bounded model checking run gives: its output, and how long it took, unless it was
stopped by its timeout. -/
structure BmcAnswer where
  output : ByteArray
  elapsed : Option Duration

/-- An action of a model checker with state `σ`. -/
abbrev SolverAction (σ : Type) := EStateM SolverError (Tree × σ)

/-- A model checker with state `σ`. -/
structure Backend (σ : Type) where
  /-- Checks the model file at a path up to a bound, within a timeout. -/
  runBmc : String → Nat → Duration → SolverAction σ BmcAnswer
  /-- Opens a session on the model file at a path. -/
  openSession : String → SolverAction σ Unit
  /-- Searches a path into a target of the open session. -/
  getPath : String → SolverAction σ (Option String)

/-- The same model checker beside another state, which it leaves alone. -/
def Backend.beside {σ τ : Type} (b : Backend σ) : Backend (σ × τ) :=
  let lift {α : Type} (act : SolverAction σ α) : SolverAction (σ × τ) α := fun (t, s, other) =>
    match act (t, s) with
    | .ok a (t, s) => .ok a (t, s, other)
    | .error e (t, s) => .error e (t, s, other)
  { runBmc := fun path n timeout => lift (b.runBmc path n timeout)
    openSession := fun path => lift (b.openSession path)
    getPath := fun target => lift (b.getPath target) }

end Punctual
