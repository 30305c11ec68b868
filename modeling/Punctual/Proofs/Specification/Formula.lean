import Punctual.Proofs.Text.Numeral
import Punctual.Proofs.Text.Trimming
import Punctual.Specification.Target

/-!
# The claims about a target

Whatever unit and task are called, the claims about their occurrences are single lines without
blanks around them (`Target.isFormula_neverCompletes`, `Target.isFormula_notCompletedBefore`).
-/

namespace Punctual

open Text

/-- The text has no line feed. -/
def IsLine (s : String) : Prop :=
  '\n' ∉ s.toList

instance (s : String) : Decidable (IsLine s) :=
  inferInstanceAs (Decidable ('\n' ∉ s.toList))

theorem IsLine.append {s t : String} (hs : IsLine s) (ht : IsLine t) : IsLine (s ++ t) := by
  unfold IsLine
  rw [String.toList_append, List.mem_append]
  exact not_or.2 ⟨hs, ht⟩

theorem isLine_toString (n : Nat) : IsLine (toString n) :=
  not_mem_toString (by decide) n

theorem not_mem_toString_time {c : Char} (hdigit : c.isDigit = false) (hminus : c ≠ '-')
    (time : Time) : c ∉ (toString time).toList := by
  cases time with
  | ofNat n => exact not_mem_toString hdigit n
  | negSucc n =>
      have hshown : (toString (Int.negSucc n)).toList = '-' :: (toString (n + 1)).toList :=
        String.toList_append
      rw [hshown, List.mem_cons]
      exact not_or.2 ⟨hminus, not_mem_toString hdigit (n + 1)⟩

theorem isLine_toString_time (time : Time) : IsLine (toString time) :=
  not_mem_toString_time (by decide) (by decide) time

/-- No character of a name is a line feed once it stands in the name of a variable. -/
theorem identifierChar_ne_newline (c : Char) : identifierChar c ≠ '\n' := by
  unfold identifierChar
  split
  · next h =>
      rintro rfl
      exact absurd h (by decide)
  · decide

theorem isLine_identifier (name : String) :
    IsLine (.ofList (name.toList.map identifierChar)) := by
  unfold IsLine
  rw [String.toList_ofList]
  intro h
  obtain ⟨c, -, hc⟩ := List.mem_map.1 h
  exact identifierChar_ne_newline c hc

theorem isLine_counterVariable (unit name : String) : IsLine (counterVariable unit name) := by
  have hfront : IsLine (counterPrefix ++ "_") := by decide
  have hbetween : IsLine "_" := by decide
  exact ((hfront.append (isLine_identifier unit)).append hbetween).append (isLine_identifier name)

/-! ## Formulas -/

/-- A formula on a single line, without blanks around it. -/
structure IsFormula (s : String) : Prop where
  isLine : IsLine s
  trimmed : trim s = s
  endsSolid : EndsSolid s.toList

theorem isFormula_globally {s : String} (h : IsLine s) : IsFormula ("G(" ++ s ++ ")") := by
  have hopen : IsLine "G(" := by decide
  have hclose : IsLine ")" := by decide
  have hsolid : EndsSolid ("G(" ++ s ++ ")").toList := by
    rw [String.toList_append]
    exact (endsSolid_singleton (c := ')') (by decide)).append_left _
  have hhead : ("G(" ++ s ++ ")").toList = 'G' :: ('(' :: s.toList ++ [')']) := by
    rw [String.toList_append, String.toList_append]
    rfl
  exact ⟨(hopen.append h).append hclose, trim_eq_self hhead (by decide) hsolid, hsolid⟩

namespace Target

variable (target : Target)

theorem isFormula_neverCompletes : IsFormula target.neverCompletes := by
  have hless : IsLine " < " := by decide
  have hinner : IsLine (target.counter ++ " < " ++ toString target.count) :=
    ((isLine_counterVariable _ _).append hless).append (isLine_toString _)
  have hshown : target.neverCompletes =
      "G(" ++ (target.counter ++ " < " ++ toString target.count) ++ ")" := by
    simp only [neverCompletes, String.append_assoc]
  rw [hshown]
  exact isFormula_globally hinner

theorem isFormula_notCompletedBefore (time : Time) :
    IsFormula (target.notCompletedBefore time) := by
  have hnot : IsLine "!((" := by decide
  have hatLeast : IsLine " >= " := by decide
  have hbefore : IsLine (") & (" ++ PlantState.timeVariable ++ " < ") := by decide
  have hclose : IsLine "))" := by decide
  have hinner : IsLine ("!((" ++ target.counter ++ " >= " ++ toString target.count ++
      (") & (" ++ PlantState.timeVariable ++ " < ") ++ toString time ++ "))") :=
    (((((hnot.append (isLine_counterVariable _ _)).append hatLeast).append
      (isLine_toString _)).append hbefore).append (isLine_toString_time time)).append hclose
  have hshown : target.notCompletedBefore time =
      "G(" ++ ("!((" ++ target.counter ++ " >= " ++ toString target.count ++
        (") & (" ++ PlantState.timeVariable ++ " < ") ++ toString time ++ "))") ++ ")" := by
    have hopened : "G(!((" = "G(" ++ "!((" := by decide
    have hclosed : ")))" = "))" ++ ")" := by decide
    rw [notCompletedBefore, hopened, hclosed]
    simp only [String.append_assoc]
  rw [hshown]
  exact isFormula_globally hinner

end Target

end Punctual
