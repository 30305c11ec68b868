import Punctual.Number.Range
import Punctual.Solver.Backend
import Punctual.Text.Blank
import Punctual.Text.Digit
import Punctual.Text.Search

/-!
# Scripted model checkers

A scripted model checker gives answers that were fixed beforehand, so that a search can be tried
out without a model. Runs are answered in the order of the script. Reachability queries are
answered in order too, or by the deadline that they ask about.
-/

namespace Punctual

/-- How a script answers reachability queries. -/
inductive ScriptedPaths
  /-- A path exists for this deadline and all later ones. -/
  | since (first : Time)
  /-- A path exists for these deadlines only. -/
  | amidst (deadlines : List Time)
  /-- The answers are fixed, in order. -/
  | listed (answers : List (Except SolverError (Option String)))

/-- Answers to runs, to the opening of a session, and to queries. -/
structure Script where
  runs : List (Except SolverError BmcAnswer)
  sessionError : Option SolverError
  paths : ScriptedPaths

namespace Script

/-- The answer behind the end of a script. -/
def exhausted : SolverError :=
  .unexpectedOutput "script exhausted"

/-- The characters behind the last bound of a formula. -/
def lastBound : List Char → Option (List Char)
  | [] => none
  | c :: cs => (lastBound cs).or (Text.dropStart? "<= ".toList (c :: cs))

/-- The deadline that a query asks about. -/
def deadlineOf? (query : String) : Option Time :=
  (lastBound query.toList).bind fun cs => Text.int? (Text.dropEndWhile (· = ')') cs)

/-- The path that a script shows for a deadline. -/
def pathText (deadline : Time) : String :=
  "  -> State: 1.1 <-\n    time = " ++ toString deadline ++ "  "

/-- The answer about one deadline. -/
def pathIf (feasible : Time → Bool) (query : String) : Except SolverError (Option String) :=
  match deadlineOf? query with
  | some d => .ok (if feasible d then some (pathText d) else none)
  | none => .error exhausted

/-- The answer to a query, and the script behind it. -/
def answer (s : Script) (query : String) : Except SolverError (Option String) × Script :=
  match s.paths with
  | .since first => (pathIf (fun d => decide (first ≤ d)) query, s)
  | .amidst ds => (pathIf (fun d => decide (d ∈ ds)) query, s)
  | .listed [] => (.error exhausted, s)
  | .listed (a :: as) => (a, { s with paths := .listed as })

/-- Takes an answer as the result of an action. -/
def give {α : Type} (a : Except SolverError α) (next : Script) : SolverAction Script α :=
  fun (tree, _) =>
    match a with
    | .ok v => .ok v (tree, next)
    | .error e => .error e (tree, next)

/-- The model checker that answers from its script. -/
def backend : Backend Script where
  runBmc _ _ _ := fun (tree, s) =>
    match s.runs with
    | [] => give (.error exhausted) s (tree, s)
    | a :: runs => give a { s with runs := runs } (tree, s)
  openSession _ := fun (tree, s) =>
    give (match s.sessionError with
      | some e => .error e
      | none => .ok ()) s (tree, s)
  getPath query := fun (tree, s) =>
    let (a, next) := s.answer query
    give a next (tree, s)

end Script

end Punctual
