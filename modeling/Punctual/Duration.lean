import Punctual.Fault
import Punctual.Number.Written

/-!
# Durations

A duration is a whole number of nanoseconds. Its seconds as a floating point number are used to
scale and to show it; a floating point number of seconds becomes a duration by rounding to the
nearest nanosecond.
-/

namespace Punctual

/-- A length of time. -/
structure Duration where
  nanos : Nat
  deriving DecidableEq, Repr

namespace Duration

/-- Nanoseconds in a second. -/
def perSecond : Nat := 1000000000

/-- The duration of some seconds and nanoseconds. -/
def ofParts (seconds nanos : Nat) : Duration :=
  ⟨seconds * perSecond + nanos⟩

/-- The duration of some milliseconds. -/
def ofMillis (millis : Nat) : Duration :=
  ⟨millis * 1000000⟩

/-- The whole seconds of a duration. -/
def seconds (d : Duration) : Nat :=
  d.nanos / perSecond

/-- The nanoseconds of a duration beyond its whole seconds. -/
def subsecond (d : Duration) : Nat :=
  d.nanos % perSecond

instance : LE Duration := ⟨fun a b => a.nanos ≤ b.nanos⟩

instance (a b : Duration) : Decidable (a ≤ b) :=
  inferInstanceAs (Decidable (a.nanos ≤ b.nanos))

/-- The longer of two durations. -/
def max (a b : Duration) : Duration :=
  if a ≤ b then b else a

/-- The longest of some durations. -/
def longest? : List Duration → Option Duration
  | [] => none
  | d :: ds => some (ds.foldl max d)

/-- The seconds of a duration as a floating point number: whole seconds and fraction are rounded
each on its own. -/
def toSeconds (d : Duration) : Float :=
  Float.ofNat d.seconds + Float.ofNat d.subsecond / 1e9

/-- The duration of a floating point number of seconds. Negative numbers have none, nor have
numbers of `2 ^ 64` or more. -/
def ofSeconds (x : Float) : Except Fault Duration :=
  match Number.Binary64.ofFloat x with
  | .nan => .error .excessiveSeconds
  | .infinite negative => .error (if negative then .negativeSeconds else .excessiveSeconds)
  | .finite negative m q =>
    if negative && m != 0 then .error .negativeSeconds
    else
      let (num, den) := Number.fractionOf m q
      if den * Nat.pow 2 64 ≤ num then .error .excessiveSeconds
      else .ok ⟨Number.roundDiv (num * perSecond) den⟩

/-- The duration multiplied by a factor. -/
def scale (d : Duration) (factor : Float) : Except Fault Duration :=
  ofSeconds (factor * d.toSeconds)

/-- The seconds of a duration with some places. -/
def written (d : Duration) (places : Nat) : String :=
  Number.writeFixed places d.toSeconds

end Duration

end Punctual
