import Punctual.Json.Value
import Punctual.Schedule.Order
import Punctual.Text.Escape

/-!
# Task counts

Completions of a task are counted per pair of unit and name. The pairs are kept in the order in
which they were first counted. In a model, a pair is counted by a variable whose name is made of
unit and name; different pairs can share one variable.
-/

namespace Punctual

/-- The prefix of all counter variables. -/
def counterPrefix : String := "COUNT"

/-- A character as it stands in the name of a variable. -/
def identifierChar (c : Char) : Char :=
  if c.isAlphanum || c == '_' then c else '_'

/-- The variable that counts the completions of a task. -/
def counterVariable (unit name : String) : String :=
  counterPrefix ++ "_" ++ .ofList (unit.toList.map identifierChar) ++ "_" ++
    .ofList (name.toList.map identifierChar)

/-- How often each task is counted. -/
structure Counts where
  entries : List ((String × String) × Nat)
  deriving DecidableEq, Repr

namespace Counts

/-- No task is counted. -/
def empty : Counts :=
  ⟨[]⟩

/-- The count of a task, zero if it was never counted. -/
def get (c : Counts) (unit name : String) : Nat :=
  (find? (unit, name) c.entries).getD 0

/-- Sets the count of a task. -/
def set (c : Counts) (unit name : String) (n : Nat) : Counts :=
  ⟨upsert (unit, name) n c.entries⟩

@[simp] theorem get_set_self (c : Counts) (unit name : String) (n : Nat) :
    (c.set unit name n).get unit name = n := by
  simp [get, set]

theorem get_set_of_ne {unit name unit' name' : String} (h : (unit', name') ≠ (unit, name))
    (c : Counts) (n : Nat) : (c.set unit name n).get unit' name' = c.get unit' name' := by
  simp [get, set, find?_upsert_of_ne h]

/-- Counts a task once more; a fault if its count is the greatest one. -/
def increment (c : Counts) (unit name : String) : Except Fault Counts :=
  if c.get unit name < maxCount then .ok (c.set unit name (c.get unit name + 1))
  else .error .sumOutOfRange

/-- Counts every task once. -/
def ofTasks (tasks : List Task) : Except Fault Counts :=
  tasks.foldlM (fun c t => c.increment t.unit t.name) empty

/-- The pairs that are counted, in order of their first count. -/
def pairs (c : Counts) : List (String × String) :=
  c.entries.map Prod.fst

/-- Adds a pair to those of its variable. -/
def groupByVariable (groups : List (String × List (String × String))) (p : String × String) :
    List (String × List (String × String)) :=
  let v := counterVariable p.1 p.2
  upsert v ((find? v groups).getD [] ++ [p]) groups

/-- The variables that more than one pair shares, with their pairs. -/
def collisions (c : Counts) : List (String × List (String × String)) :=
  (c.pairs.foldl groupByVariable []).filter fun (_, ps) => 1 < ps.length

/-- The warning about a shared variable. -/
def collisionText (shared : String) (ps : List (String × String)) : String :=
  "Tasks [" ++
    ", ".intercalate (ps.map fun (unit, name) =>
      "(" ++ Text.quoted unit ++ ", " ++ Text.quoted name ++ ")") ++
    "] share the counter variable " ++ shared ++ ", their occurrences are counted together"

end Counts

end Punctual
