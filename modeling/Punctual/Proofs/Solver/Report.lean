import Punctual.Proofs.Text.Separated
import Punctual.Solver.Output

/-!
# Outputs made of reports

A model checker prints one report for each specification that it has checked, one below the other.
Every report starts with a dash, and neither the words of a refutation nor the assignment of a time
goes across a dash. So what an output says is what its reports say together: it is refuted if one of
them is (`isRefuted_ofReports`), and its times are the times of all of them (`completionTimes_ofReports`).
-/

namespace Punctual

namespace Output

open Text

/-! ## Characters around a dash -/

section Dash

variable {l m : List Char}

/-- A dash ends an assignment. -/
theorem assignment?_append_dash :
    assignment? (l ++ '-' :: m) =
      (assignment? l).map fun (digits, rest) => (digits, rest ++ '-' :: m) := by
  have hblank : isBlank '-' = false := by decide
  have hdigit : isDecimalDigit '-' = false := by decide
  unfold assignment?
  rw [dropStart?_append_cons (by decide)]
  cases dropStart? ['t', 'i', 'm', 'e'] l with
  | none => rfl
  | some rest =>
      dsimp only [Option.map_some]
      rw [dropWhile_append_cons hblank]
      cases rest.dropWhile isBlank with
      | nil => rfl
      | cons c rest =>
          by_cases hc : c = '='
          · subst hc
            simp only [List.cons_append, dropWhile_append_cons hblank,
              takeWhile_append_cons hdigit, dropWhile_append_cons hdigit]
            split
            · rfl
            · rfl
          · simp [hc]

theorem assignments_cons_of_some {c : Char} {cs digits rest : List Char}
    (h : assignment? (c :: cs) = some (digits, rest)) :
    assignments (c :: cs) = digits :: assignments rest := by
  rw [assignments]
  split
  · next digits' rest' heq =>
      obtain ⟨rfl, rfl⟩ := Prod.mk.inj (Option.some.inj (h.symm.trans heq))
      rfl
  · next hnone => exact absurd (h.symm.trans hnone) (by simp)

theorem assignments_cons_of_none {c : Char} {cs : List Char} (h : assignment? (c :: cs) = none) :
    assignments (c :: cs) = assignments cs := by
  rw [assignments]
  split
  · next digits' rest' heq => exact absurd (h.symm.trans heq) (by simp)
  · rfl

/-- The assignments on both sides of a dash are found. -/
theorem assignments_append_dash :
    assignments (l ++ '-' :: m) = assignments l ++ assignments ('-' :: m) := by
  fun_induction assignments l
  case case1 => rfl
  case case2 c cs digits rest h ih =>
    have hjoined : assignment? (c :: (cs ++ '-' :: m)) = some (digits, rest ++ '-' :: m) := by
      rw [← List.cons_append, assignment?_append_dash, h]
      rfl
    rw [List.cons_append, assignments_cons_of_some hjoined, ih, List.cons_append]
  case case3 c cs h ih =>
    have hjoined : assignment? (c :: (cs ++ '-' :: m)) = none := by
      rw [← List.cons_append, assignment?_append_dash, h]
      rfl
    rw [List.cons_append, assignments_cons_of_none hjoined, ih]

end Dash

/-! ## Reports -/

/-- What a model checker reports about a specification. -/
inductive SpecReport
  /-- It is refuted by a trace. -/
  | refuted (formula : String) (trace : List String)
  /-- It is not refuted. -/
  | unrefuted (remark : String) (details : List String)
    (hunrefuted : isRefuted ("-- " ++ remark ++ "\n" ++ linesEnded details) = false)

namespace SpecReport

/-- The report as it is printed. -/
def text : SpecReport → String
  | refuted formula trace =>
    "-- specification " ++ formula ++ " is false\n" ++ linesEnded trace
  | unrefuted remark details _ => "-- " ++ remark ++ "\n" ++ linesEnded details

/-- The specification is refuted. -/
def isRefuted : SpecReport → Bool
  | refuted .. => true
  | unrefuted .. => false

/-- The times that the report states. -/
def times (r : SpecReport) : List Time :=
  completionTimes r.text

/-- The completion time that the report states if its specification is refuted. -/
def completion? (r : SpecReport) : Option Time :=
  if r.isRefuted then r.times.max? else none

/-- What is printed of a report says whether its specification is refuted. -/
theorem isRefuted_text (r : SpecReport) : Output.isRefuted r.text = r.isRefuted := by
  cases r with
  | refuted formula trace =>
      have hwords : " is false\n".toList = ' ' :: (refutedWords.toList ++ ['\n']) := by
        decide +kernel
      have htext : (refuted formula trace).text.toList =
          ("-- specification ".toList ++ formula.toList ++ [' ']) ++ refutedWords.toList ++
            ('\n' :: (linesEnded trace).toList) := by
        unfold text
        rw [String.toList_append, String.toList_append, String.toList_append, hwords]
        simp only [List.append_assoc, List.cons_append, List.nil_append]
      have hinfix : refutedWords.toList <:+: (refuted formula trace).text.toList := by
        rw [htext]
        exact List.infix_append _ _ _
      exact hasInfix_iff.2 hinfix
  | unrefuted remark details hunrefuted => exact hunrefuted

/-- Every report starts with a dash. -/
theorem exists_text_eq (r : SpecReport) : ∃ cs, r.text.toList = '-' :: cs := by
  cases r with
  | refuted formula trace =>
      have hstart : "-- specification ".toList = '-' :: "- specification ".toList := by
        decide +kernel
      refine ⟨"- specification ".toList ++ formula.toList ++ " is false\n".toList ++
        (linesEnded trace).toList, ?_⟩
      unfold text
      rw [String.toList_append, String.toList_append, String.toList_append, hstart]
      simp only [List.cons_append]
  | unrefuted remark details _ =>
      have hstart : "-- ".toList = '-' :: "- ".toList := by
        decide +kernel
      refine ⟨"- ".toList ++ remark.toList ++ "\n".toList ++ (linesEnded details).toList, ?_⟩
      unfold text
      rw [String.toList_append, String.toList_append, String.toList_append, hstart]
      simp only [List.cons_append]

end SpecReport

/-- The output of reports, one below the other. -/
def ofReports (rs : List SpecReport) : String :=
  String.join (rs.map SpecReport.text)

theorem toList_ofReports_cons (r : SpecReport) (rs : List SpecReport) :
    (ofReports (r :: rs)).toList = r.text.toList ++ (ofReports rs).toList := by
  unfold ofReports
  rw [List.map_cons, String.join_cons, String.toList_append]

/-- What is below a report starts with a dash, if there is anything. -/
theorem ofReports_eq_or_exists (rs : List SpecReport) :
    (ofReports rs).toList = [] ∨ ∃ cs, (ofReports rs).toList = '-' :: cs := by
  cases rs with
  | nil => exact .inl rfl
  | cons r rs =>
      obtain ⟨cs, hcs⟩ := r.exists_text_eq
      refine .inr ⟨cs ++ (ofReports rs).toList, ?_⟩
      rw [toList_ofReports_cons, hcs, List.cons_append]

/-- An output is refuted if one of its reports is. -/
theorem isRefuted_ofReports (rs : List SpecReport) :
    isRefuted (ofReports rs) = rs.any SpecReport.isRefuted := by
  induction rs with
  | nil => decide +kernel
  | cons r rs ih =>
      rw [List.any_cons, ← ih, ← r.isRefuted_text]
      unfold isRefuted contains
      rw [toList_ofReports_cons]
      rcases ofReports_eq_or_exists rs with hnil | ⟨cs, hcs⟩
      · have hnone : hasInfix refutedWords.toList [] = false := by decide +kernel
        rw [hnil, List.append_nil, hnone, Bool.or_false]
      · rw [hcs, hasInfix_append_cons (by decide +kernel) (by decide +kernel)]

/-- The times of an output are those of its reports. -/
theorem completionTimes_ofReports (rs : List SpecReport) :
    completionTimes (ofReports rs) = rs.flatMap SpecReport.times := by
  induction rs with
  | nil => decide +kernel
  | cons r rs ih =>
      rw [List.flatMap_cons, ← ih]
      unfold SpecReport.times completionTimes
      rw [toList_ofReports_cons, ← List.filterMap_append]
      rcases ofReports_eq_or_exists rs with hnil | ⟨cs, hcs⟩
      · rw [hnil, List.append_nil, assignments, List.append_nil]
      · rw [hcs, assignments_append_dash]

end Output

end Punctual
