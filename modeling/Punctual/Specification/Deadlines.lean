import Punctual.Specification.Target

/-!
# Deadline specifications

The deadline specification of a schedule has a target for every task occurrence, in order of the
deadlines, and declares the counter variables it needs. Counting starts at given counts, so that
specifications of parts of a schedule can follow one another.
-/

namespace Punctual

/-- A counter variable that goes from zero to `upper`. -/
structure Counter where
  name : String
  upper : Nat
  deriving DecidableEq, Repr

/-- The declaration of a counter variable. -/
def Counter.text (c : Counter) : String :=
  c.name ++ " : 0.." ++ toString c.upper ++ ";"

/-- The targets of a schedule, the counter variables they need, and the counts after them. -/
structure DeadlineSpec where
  counters : List Counter
  targets : List Target
  finalCounts : Counts
  deriving DecidableEq, Repr

namespace DeadlineSpec

/-- Counts tasks one after another; every task becomes the target of its occurrence. -/
def count : Counts → List Task → Except Fault (List Target × Counts)
  | counts, [] => .ok ([], counts)
  | counts, t :: ts =>
    match counts.increment t.unit t.name with
    | .error f => .error f
    | .ok next =>
      match count next ts with
      | .error f => .error f
      | .ok (targets, last) =>
        .ok (⟨t.unit, t.name, next.get t.unit t.name, t.deadline⟩ :: targets, last)

/-- The counters of all pairs that are counted beyond their initial count. -/
def countersBeyond (initial last : Counts) : List Counter :=
  (last.entries.filter fun ((unit, name), n) => initial.get unit name < n).map
    fun ((unit, name), n) => ⟨counterVariable unit name, n⟩

/-- The deadline specification of a schedule. -/
def ofSchedule (initial : Counts) (s : Schedule) : Except Fault DeadlineSpec :=
  match count initial s.ordered with
  | .error f => .error f
  | .ok (targets, last) => .ok ⟨countersBeyond initial last, targets, last⟩

/-- The warnings about counter variables that several tasks share. -/
def warnings (d : DeadlineSpec) : List String :=
  d.finalCounts.collisions.map fun (name, ps) => Counts.collisionText name ps

/-- The target of a task. -/
def targetOf? (d : DeadlineSpec) (t : Task) : Option Target :=
  d.targets.find? (·.isTargetOf t)

/-- The declarations of the counters. -/
def declarations (counters : List Counter) : String :=
  if counters.isEmpty then ""
  else "VAR\n" ++ String.join (counters.map fun c => "    " ++ c.text ++ "\n") ++ "\n"

/-- The specification as model text. -/
def text (d : DeadlineSpec) : String :=
  declarations d.counters ++ String.join (d.targets.map fun g => g.specification ++ "\n")

end DeadlineSpec

end Punctual
