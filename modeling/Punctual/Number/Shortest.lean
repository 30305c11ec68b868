import Punctual.Number.Binary64

/-!
# The shortest decimal of a floating point number

The decimals that round to a positive floating point number `m * 2 ^ q` form an interval around
it; its ends belong to it if `m` is even. Among the decimals of this interval, the shortest one
has the fewest digits, and of two with equally many digits it is the nearer one, or the one whose
last digit is even.
-/

namespace Punctual.Number

/-- The decimal `digits * 10 ^ exponent`. -/
structure Decimal where
  digits : Nat
  exponent : Int
  deriving DecidableEq, Repr

/-- The interval of reals that round to `m * 2 ^ q`, as fractions over one denominator. -/
structure RoundingInterval where
  low : Nat
  value : Nat
  high : Nat
  den : Nat
  closed : Bool

/-- The interval around `m * 2 ^ q`: half a unit in the last place to each side, and a quarter
below where the units become smaller. -/
def RoundingInterval.around (m : Nat) (q : Int) : RoundingInterval :=
  let below := if m = Nat.pow 2 52 ∧ q ≠ -1074 then 1 else 2
  let scale := if 0 ≤ q then Nat.pow 2 q.toNat else 1
  let den := if 0 ≤ q then 4 else 4 * Nat.pow 2 (-q).toNat
  { low := (4 * m - below) * scale
    value := 4 * m * scale
    high := (4 * m + 2) * scale
    den := den
    closed := m % 2 == 0 }

/-- The decimal `d * 10 ^ e` lies in the interval. -/
def RoundingInterval.holds (r : RoundingInterval) (d : Nat) (e : Int) : Bool :=
  let (num, den) := if 0 ≤ e then (d * Nat.pow 10 e.toNat, 1) else (d, Nat.pow 10 (-e).toNat)
  let x := num * r.den
  if r.closed then r.low * den ≤ x && x ≤ r.high * den
  else r.low * den < x && x < r.high * den

/-- The neighbour of the value on the grid of multiples of `10 ^ e` that lies in the interval, the
nearer of two. -/
def RoundingInterval.onGrid? (r : RoundingInterval) (e : Int) : Option Nat :=
  let (num, den) :=
    if 0 ≤ e then (r.value, r.den * Nat.pow 10 e.toNat)
    else (r.value * Nat.pow 10 (-e).toNat, r.den)
  let floor := num / den
  let nearest := roundDiv num den
  let other := if nearest = floor then floor + 1 else floor
  if 0 < nearest && r.holds nearest e then some nearest
  else if 0 < other && r.holds other e then some other
  else none

/-- The exponent of the leading digit of `num / den`, searched downwards from `start`. -/
def leadingExponent (num den : Nat) : Nat → Int → Int
  | 0, e => e
  | fuel + 1, e =>
    let fits :=
      if 0 ≤ e then den * Nat.pow 10 e.toNat ≤ num else den ≤ num * Nat.pow 10 (-e).toNat
    if fits then e else leadingExponent num den fuel (e - 1)

/-- The decimal without zeros at the end of its digits. -/
def Decimal.dropZeros (d : Decimal) : Nat → Decimal
  | 0 => d
  | fuel + 1 =>
    if d.digits % 10 = 0 ∧ d.digits ≠ 0 then
      Decimal.dropZeros ⟨d.digits / 10, d.exponent + 1⟩ fuel
    else d

/-- The shortest decimal that rounds to `m * 2 ^ q`, for a positive `m`. -/
def shortest (m : Nat) (q : Int) : Decimal :=
  let r := RoundingInterval.around m q
  let lead := leadingExponent r.value r.den 700 310
  let found := (List.range 17).findSome? fun (n : Nat) =>
    let e : Int := lead - n
    (r.onGrid? e).map fun d => Decimal.mk d e
  (found.getD ⟨0, 0⟩).dropZeros 400

def Decimal.digitChars (d : Decimal) : List Char :=
  Nat.toDigits 10 d.digits

/-- How many digits stand before the decimal point, if the decimal is written without exponent;
zero or less if it is below one. -/
def Decimal.pointAfter (d : Decimal) : Int :=
  d.digitChars.length + d.exponent

end Punctual.Number
