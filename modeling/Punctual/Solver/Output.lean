import Punctual.Number.Range
import Punctual.Text.Blank
import Punctual.Text.Digit
import Punctual.Text.Lines
import Punctual.Text.Search

/-!
# Output of a model checker

What the text that a model checker prints says: whether a property was refuted or proven, and at
which times the states of a trace lie. A time is whatever number stands behind the letters `time`
and an equality sign, wherever these letters occur.
-/

namespace Punctual.Output

/-- The words by which a property is reported as refuted. -/
def refutedWords : String := "is false"

/-- The words by which a property is reported as proven. -/
def provenWords : String := "is true"

/-- The output reports a refuted property. -/
def isRefuted (output : String) : Bool :=
  Text.contains output refutedWords

/-- The output reports a proven property. -/
def isProven (output : String) : Bool :=
  Text.contains output provenWords

/-- The digits assigned behind the letters `time` at the head of the characters, and the
characters behind them. -/
def assignment? (cs : List Char) : Option (List Char × List Char) :=
  match Text.dropStart? ['t', 'i', 'm', 'e'] cs with
  | none => none
  | some rest =>
    match rest.dropWhile Text.isBlank with
    | '=' :: rest =>
      let rest := rest.dropWhile Text.isBlank
      let digits := rest.takeWhile Text.isDecimalDigit
      if digits.isEmpty then none else some (digits, rest.dropWhile Text.isDecimalDigit)
    | _ => none

theorem length_of_assignment? {cs digits rest : List Char}
    (h : assignment? cs = some (digits, rest)) : rest.length < cs.length := by
  have aux (p : Char → Bool) (l : List Char) : (l.dropWhile p).length ≤ l.length :=
    (List.dropWhile_sublist p).length_le
  unfold assignment? at h
  split at h
  · simp at h
  · next after hafter =>
    rw [Text.dropStart?_eq_some_iff] at hafter
    split at h
    · next after' heq =>
      have h1 := aux Text.isBlank after
      have h2 := aux Text.isBlank after'
      have h3 := aux Text.isDecimalDigit (after'.dropWhile Text.isBlank)
      simp only [Option.ite_none_left_eq_some, Option.some.injEq, Prod.mk.injEq] at h
      obtain ⟨-, -, rfl⟩ := h
      rw [heq] at h1
      simp only [List.length_cons] at h1
      rw [hafter, List.length_append]
      omega
    · simp at h

/-- The digits of all assignments to the letters `time`, from left to right. -/
def assignments : List Char → List (List Char)
  | [] => []
  | c :: cs =>
    match _h : assignment? (c :: cs) with
    | some (digits, rest) => digits :: assignments rest
    | none => assignments cs
termination_by cs => cs.length
decreasing_by
  · exact length_of_assignment? _h
  · exact Nat.lt_succ_self _

/-- The time that digits denote. -/
def time? (digits : List Char) : Option Time :=
  match Text.nat? digits with
  | some n => if Time.Fits n then some n else none
  | none => none

/-- The times of a trace, in order; digits that denote no time are passed over. -/
def completionTimes (output : String) : List Time :=
  (assignments output.toList).filterMap time?

/-- The last of the times of a trace. -/
def finalTime (output : String) : Option Time :=
  (completionTimes output).max?

/-- The lines of a trace without trailing blanks. -/
def traceLines (output : String) : List String :=
  (Text.lines output).map Text.trimEnd

end Punctual.Output
