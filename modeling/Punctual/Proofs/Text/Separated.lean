import Mathlib.Tactic.Common
import Punctual.Text.Search

/-!
# Searches up to a separator

What has no separator in it is found in front of one or behind it, but not across. So a search in
a text that is joined at a separator is one in each of the parts (`infix_append_cons_iff`), and a
scan that a separator stops does not depend on what stands behind it (`takeWhile_append_cons`,
`dropWhile_append_cons`).
-/

namespace Punctual

namespace Text

section Separated

variable {needle l m : List Char} {sep : Char} {p : Char → Bool}

/-- What does not contain a separator ends before it. -/
theorem prefix_append_cons_iff (hsep : sep ∉ needle) :
    needle <+: l ++ sep :: m ↔ needle <+: l := by
  constructor
  · intro h
    rcases List.prefix_or_prefix_of_prefix h (List.prefix_append l (sep :: m)) with hl | hl
    · exact hl
    · obtain ⟨rest, rfl⟩ := hl
      rw [List.prefix_append_right_inj] at h
      cases rest with
      | nil => simp
      | cons c rest =>
          obtain ⟨rfl, -⟩ := List.cons_prefix_cons.1 h
          simp at hsep
  · intro h
    exact h.trans (List.prefix_append _ _)

theorem infix_append_cons_iff (hsep : sep ∉ needle) (hne : needle ≠ []) :
    needle <:+: l ++ sep :: m ↔ needle <:+: l ∨ needle <:+: sep :: m := by
  induction l with
  | nil => simp [hne]
  | cons c l ih =>
      rw [List.cons_append, List.infix_cons_iff, ih, ← List.cons_append,
        prefix_append_cons_iff hsep, ← or_assoc, ← List.infix_cons_iff]

theorem hasInfix_append_cons (hsep : sep ∉ needle) (hne : needle ≠ []) :
    hasInfix needle (l ++ sep :: m) = (hasInfix needle l || hasInfix needle (sep :: m)) := by
  rw [Bool.eq_iff_iff, Bool.or_eq_true, hasInfix_iff, hasInfix_iff, hasInfix_iff]
  exact infix_append_cons_iff hsep hne

theorem dropStart?_append_cons (hsep : sep ∉ needle) :
    dropStart? needle (l ++ sep :: m) = (dropStart? needle l).map (· ++ sep :: m) := by
  cases hl : dropStart? needle l with
  | some rest =>
      obtain rfl := dropStart?_eq_some_iff.1 hl
      rw [List.append_assoc]
      exact dropStart?_eq_some_iff.2 rfl
  | none =>
      cases hm : dropStart? needle (l ++ sep :: m) with
      | none => rfl
      | some rest =>
          have hprefix : needle <+: l ++ sep :: m := ⟨rest, (dropStart?_eq_some_iff.1 hm).symm⟩
          obtain ⟨before, hbefore⟩ := (prefix_append_cons_iff hsep).1 hprefix
          rw [dropStart?_eq_some_iff.2 hbefore.symm] at hl
          simp at hl

theorem dropWhile_append_cons (hp : p sep = false) :
    (l ++ sep :: m).dropWhile p = l.dropWhile p ++ sep :: m := by
  induction l with
  | nil => simp [hp]
  | cons c l ih =>
      rw [List.cons_append, List.dropWhile_cons, List.dropWhile_cons]
      split
      · exact ih
      · rfl

theorem takeWhile_append_cons (hp : p sep = false) :
    (l ++ sep :: m).takeWhile p = l.takeWhile p := by
  induction l with
  | nil => simp [hp]
  | cons c l ih =>
      rw [List.cons_append, List.takeWhile_cons, List.takeWhile_cons]
      split
      · rw [ih]
      · rfl

end Separated

end Text

end Punctual
