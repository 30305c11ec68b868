/-!
# Binary floating point numbers, exactly

A finite 64-bit floating point number is `m * 2 ^ q` for a natural number `m` and an integer `q`.
All exact work on such numbers starts from this form, and rounds a quotient of natural numbers to
the nearest integer with ties to the even neighbour.
-/

namespace Punctual.Number

/-- The value of a floating point number. -/
inductive Binary64
  | nan
  | infinite (negative : Bool)
  /-- The number `m * 2 ^ q`, below zero if `negative`. -/
  | finite (negative : Bool) (m : Nat) (q : Int)
  deriving DecidableEq, Repr

/-- Reads the bits: one of sign, eleven of exponent, fifty-two of fraction. -/
def Binary64.ofBits (bits : UInt64) : Binary64 :=
  let n : Nat := bits.toNat
  let negative := n / Nat.pow 2 63 == 1
  let exponent : Nat := n / Nat.pow 2 52 % 2048
  let fraction : Nat := n % Nat.pow 2 52
  if exponent = 2047 then
    if fraction = 0 then .infinite negative else .nan
  else if exponent = 0 then .finite negative fraction (-1074)
  else .finite negative (Nat.pow 2 52 + fraction) ((exponent : Int) - 1075)

def Binary64.ofFloat (x : Float) : Binary64 :=
  .ofBits x.toBits

/-- The fraction `num / den` with `num / den = m * 2 ^ q`. -/
def fractionOf (m : Nat) (q : Int) : Nat × Nat :=
  if 0 ≤ q then (m * Nat.pow 2 q.toNat, 1) else (m, Nat.pow 2 (-q).toNat)

/-- The integer nearest to `num / den`, the even one of two. -/
def roundDiv (num den : Nat) : Nat :=
  let floor := num / den
  let rest := 2 * (num % den)
  if rest < den then floor
  else if den < rest then floor + 1
  else if floor % 2 = 0 then floor else floor + 1

/-- A rounded quotient is at most half a unit away. -/
theorem roundDiv_near (num den : Nat) (h : 0 < den) :
    2 * num ≤ 2 * (roundDiv num den * den) + den ∧
      2 * (roundDiv num den * den) ≤ 2 * num + den := by
  have hmod := Nat.div_add_mod num den
  have hlt := Nat.mod_lt num h
  have hcomm : num / den * den = den * (num / den) := Nat.mul_comm ..
  simp only [roundDiv]
  split
  · omega
  · split
    · rw [Nat.add_mul, hcomm]; omega
    · split
      · omega
      · rw [Nat.add_mul, hcomm]; omega

end Punctual.Number
