import Punctual.Check.Delegation
import Punctual.CommandLine.Run
import Punctual.Solver.Process

/-!
# Calls that start programs

A call carried out with the programs that its configuration names.
-/

namespace Punctual.CommandLine

/-- The programs that are started by their names. -/
def Programs.byName : Programs (Option ProgramSession) where
  backend := SolverConfig.backend
  combiner := Combiner.program

/-- The world of a call before anything is done. -/
def startWorld (tree : Tree) : World (Option ProgramSession) :=
  ⟨tree, [], none, []⟩

end Punctual.CommandLine
