import Punctual.Number.Range

/-!
# The search for the smallest feasible deadline

From a deadline that is known to be infeasible, later deadlines are probed: first in steps that
double, up to the end of the horizon, until one is feasible, and then by halving the gap between
the last infeasible and the first feasible one until they are adjacent.

A probe may answer anything. The doubling ends because a step that does not fit the range of times
leads to the end of the horizon, the halving because the gap gets smaller.
-/

namespace Punctual

/-- What is known about the smallest feasible deadline. -/
structure DelayBounds where
  /-- The deadline of the task. -/
  deadline : Time
  /-- The largest deadline known to be infeasible. -/
  lower : Time
  /-- The smallest deadline known to be feasible. -/
  upper : Option Time
  deriving DecidableEq, Repr

namespace DelayBounds

/-- Only the deadline of the task is known to be infeasible. -/
def ofDeadline (deadline : Time) : DelayBounds :=
  ⟨deadline, deadline, none⟩

/-- By how much the deadline has to be delayed at least. -/
def delay (b : DelayBounds) : Except Fault Time := do
  Time.add (← Time.sub b.lower b.deadline) 1

/-- The smallest feasible deadline is known. -/
def isExact (b : DelayBounds) : Except Fault Bool :=
  match b.upper with
  | none => .ok false
  | some upper => do return decide ((← Time.sub upper b.lower) < 2)

end DelayBounds

/-- The deadline `2 ^ k` steps after the start, or the end of the horizon if it is earlier or if
the step leads out of the range of times. -/
def relaxedDeadline (start horizonEnd : Time) (k : Nat) : Time :=
  if k < 63 then
    match Time.sum? start (Nat.pow 2 k : Nat) with
    | some t => min t horizonEnd
    | none => horizonEnd
  else horizonEnd

theorem relaxedDeadline_of_le {start horizonEnd : Time} {k : Nat} (h : 63 ≤ k) :
    relaxedDeadline start horizonEnd k = horizonEnd := by
  simp [relaxedDeadline, Nat.not_lt.2 h]

variable {ε σ : Type}

/-- Probes the deadlines `2 ^ k`, `2 ^ (k + 1)`, … steps after the start, up to the first feasible
one or the end of the horizon. -/
def doublingFrom (probe : Time → Action ε σ Bool) (start horizonEnd : Time) (k : Nat)
    (b : DelayBounds) : Action ε σ DelayBounds := do
  let t := relaxedDeadline start horizonEnd k
  if ← probe t then return { b with upper := some t }
  else if _ : relaxedDeadline start horizonEnd k = horizonEnd then return { b with lower := t }
  else doublingFrom probe start horizonEnd (k + 1) { b with lower := t }
termination_by 63 - k
decreasing_by
  have : k < 63 := Nat.lt_of_not_le fun hk => absurd (relaxedDeadline_of_le hk) (by assumption)
  omega

/-- Searches for a feasible deadline after the largest one known to be infeasible. -/
def exponentialSearch (probe : Time → Action ε σ Bool) (horizonEnd : Time) (b : DelayBounds) :
    Action ε σ DelayBounds :=
  if horizonEnd ≤ b.lower then pure b
  else doublingFrom probe b.lower horizonEnd 0 b

/-- Halves the gap between an infeasible and a feasible deadline until they are adjacent. -/
def halveGap (probe : Time → Action ε σ Bool) (deadline lower upper : Time) :
    Action ε σ DelayBounds :=
  match hgap : Time.sub upper lower with
  | .error f => throw (.fault f)
  | .ok gap =>
    if hnarrow : gap < 2 then pure ⟨deadline, lower, some upper⟩
    else do
      if ← probe (lower + gap / 2) then halveGap probe deadline lower (lower + gap / 2)
      else halveGap probe deadline (lower + gap / 2) upper
termination_by (upper - lower).toNat
decreasing_by
  all_goals
    have hwide := Int.not_lt.1 hnarrow
    have := (Time.sub_eq_ok_iff.1 hgap).1
    omega

/-- Searches between the bounds until the smallest feasible deadline is known. Bounds without a
feasible deadline stay as they are. -/
def binarySearch (probe : Time → Action ε σ Bool) (b : DelayBounds) : Action ε σ DelayBounds :=
  match b.upper with
  | none => pure b
  | some upper => halveGap probe b.deadline b.lower upper

end Punctual
