import Mathlib.Data.List.Basic
import Punctual.Text.Digit

/-!
# Written numbers

Numbers are written in decimal digits, behind a sign if they are negative. Reading such a text gives
back the number (`int?_toString`).
-/

namespace Punctual.Text

theorem toList_toString (n : Nat) : (toString n).toList = Nat.toDigits 10 n := by
  rw [Nat.toString_eq_ofList_toDigits, String.toList_ofList]

theorem isDigit_of_mem_toString {n : Nat} {c : Char} (h : c ∈ (toString n).toList) :
    c.isDigit := by
  rw [toList_toString] at h
  exact Nat.isDigit_of_mem_toDigits (by decide) (by decide) h

theorem not_mem_toString {c : Char} (hc : c.isDigit = false) (n : Nat) :
    c ∉ (toString n).toList := by
  intro hmem
  have hdigit := isDigit_of_mem_toString hmem
  rw [hc] at hdigit
  exact Bool.false_ne_true hdigit

theorem toList_toString_ne_nil (n : Nat) : (toString n).toList ≠ [] := by
  rw [toList_toString]
  exact Nat.toDigits_ne_nil

/-- The last character of a number is a digit. -/
theorem exists_concat_toString (n : Nat) :
    ∃ init c, (toString n).toList = init ++ [c] ∧ c.isDigit := by
  have hne := toList_toString_ne_nil n
  exact ⟨_, _, (List.dropLast_append_getLast hne).symm,
    isDigit_of_mem_toString (List.getLast_mem hne)⟩

theorem natOfDigits_toString (n : Nat) : natOfDigits (toString n).toList = n := by
  have hdigits (cs : List Char) : natOfDigits cs = Nat.ofDigitChars 10 cs 0 := by
    simp only [natOfDigits, Nat.ofDigitChars_eq_foldl, Nat.mul_comm]
    rfl
  rw [hdigits, toList_toString, Nat.ofDigitChars_ten_toDigits]

theorem nat?_toString (n : Nat) : nat? (toString n).toList = some n := by
  have hdigits : (toString n).toList.all Char.isDigit :=
    List.all_eq_true.2 fun c hc => isDigit_of_mem_toString hc
  have hne : (toString n).toList.isEmpty = false :=
    List.isEmpty_eq_false_iff.2 (toList_toString_ne_nil n)
  rw [nat?, hdigits, hne, natOfDigits_toString]
  rfl

/-- What begins with a digit has no sign. -/
theorem int?_of_isDigit {c : Char} (h : c.isDigit) (cs : List Char) :
    int? (c :: cs) = (nat? (c :: cs)).map Int.ofNat := by
  unfold int?
  split
  · next heq =>
    obtain ⟨rfl, -⟩ := List.cons.inj heq
    exact absurd h (by decide)
  · next heq =>
    obtain ⟨rfl, -⟩ := List.cons.inj heq
    exact absurd h (by decide)
  · rfl

theorem int?_toString (n : Int) : int? (toString n).toList = some n := by
  cases n with
  | ofNat n =>
    change int? (toString n).toList = some (n : Int)
    obtain ⟨c, cs, hdigits⟩ := List.exists_cons_of_ne_nil (toList_toString_ne_nil n)
    have hc : c ∈ (toString n).toList := by
      rw [hdigits]
      exact List.mem_cons_self
    have hread := nat?_toString n
    rw [hdigits] at hread ⊢
    rw [int?_of_isDigit (isDigit_of_mem_toString hc), hread]
    rfl
  | negSucc n =>
    change int? ("-" ++ toString (n + 1)).toList = some (Int.negSucc n)
    have hsign : ("-" ++ toString (n + 1)).toList = '-' :: (toString (n + 1)).toList := by
      rw [String.toList_append]
      rfl
    rw [hsign, int?, nat?_toString]
    rfl

end Punctual.Text
