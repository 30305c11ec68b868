import Punctual.Fault

/-!
# Times and counts in their ranges

Times are integers, and every time that is read or computed fits 64 bits with a sign. Counts are
natural numbers that fit 32 bits. Arithmetic on them is exact; a result outside the range is a
fault.
-/

namespace Punctual

abbrev Time := Int

namespace Time

def lowest : Int := -9223372036854775808

def highest : Int := 9223372036854775807

def Fits (t : Int) : Prop :=
  lowest ≤ t ∧ t ≤ highest

instance (t : Int) : Decidable (Fits t) :=
  inferInstanceAs (Decidable (_ ∧ _))

/-- What lies between zero and a number in range is in range. -/
theorem Fits.of_le {a b : Int} (h : Fits b) (hnonneg : 0 ≤ a) (hle : a ≤ b) : Fits a := by
  unfold Fits lowest highest at *
  omega

def sum? (a b : Time) : Option Time :=
  if Fits (a + b) then some (a + b) else none

def add (a b : Time) : Except Fault Time :=
  if Fits (a + b) then .ok (a + b) else .error .sumOutOfRange

/-- The difference; a fault if it does not fit. -/
def sub (a b : Time) : Except Fault Time :=
  if Fits (a - b) then .ok (a - b) else .error .differenceOutOfRange

theorem add_eq_ok_iff {a b c : Int} : add a b = .ok c ↔ c = a + b ∧ Fits (a + b) := by
  unfold add
  split <;> simp_all [eq_comm]

theorem sub_eq_ok_iff {a b c : Int} : sub a b = .ok c ↔ c = a - b ∧ Fits (a - b) := by
  unfold sub
  split <;> simp_all [eq_comm]

theorem sub_one_eq_ok {a : Int} (hnonneg : 0 ≤ a) (hfits : Fits a) : sub a 1 = .ok (a - 1) := by
  refine sub_eq_ok_iff.2 ⟨rfl, ?_⟩
  unfold Fits lowest highest at *
  omega

end Time

def maxCount : Nat := 4294967295

end Punctual
