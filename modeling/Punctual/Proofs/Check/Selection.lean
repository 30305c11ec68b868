import Punctual.Check.Run
import Punctual.Proofs.Schedule.Order
import Punctual.Proofs.Specification.Occurrence

/-!
# The task of a check

A check is about the candidate that is due first. The tasks in front of it in the order decide which
occurrence of the task it is.
-/

namespace Punctual

open Schedule

namespace Schedule

variable {s : Schedule} {now : Time} {unit : Option String} {t : Task}

/-- A candidate is a task on the given unit, if one is given, whose window contains the time. -/
theorem isCandidate_iff :
    isCandidate now unit t ↔
      (t.window.opens ≤ now ∧ now ≤ t.window.closes) ∧ ∀ u ∈ unit, u = t.unit := by
  cases unit <;> simp [isCandidate, Task.isActiveAt, Window.contains]

/-- A check at a time is about the task, with these tasks in front of it. -/
structure Selects (s : Schedule) (now : Time) (unit : Option String) (earlier : List Task)
    (t : Task) : Prop where
  firstDue : FirstDue (isCandidate now unit) s.units.tasks t
  exists_later : ∃ later, s.ordered = earlier ++ t :: later

theorem Selects.mem {earlier : List Task} (h : s.Selects now unit earlier t) :
    t ∈ s.units.tasks := by
  obtain ⟨before, after, htasks, -⟩ := h.firstDue.exists_split
  rw [htasks]
  exact List.mem_append_right _ List.mem_cons_self

/-- The target of a task with some tasks in front of it. -/
def occurrence (earlier : List Task) (t : Task) : Target :=
  ⟨t.unit, t.name, (earlier.countP fun u => u.unit = t.unit ∧ u.name = t.name) + 1, t.deadline⟩

theorem targetOf_eq_occurrence {counts : Counts} {earlier : List Task}
    (h : Counts.ofTasks earlier = .ok counts) (t : Task) :
    counts.targetOf t = occurrence earlier t := by
  rw [Counts.targetOf, Counts.get_ofTasks h]
  rfl

end Schedule

namespace Checker

variable {s : Schedule} {now : Time} {unit : Option String} {i active : Nat} {t : Task}

theorem select_eq_none_iff :
    select s.ordered now unit = none ↔ ∀ t ∈ s.units.tasks, ¬ isCandidate now unit t := by
  have hmem (t : Task) : t ∈ s.ordered ↔ t ∈ s.units.tasks := mem_byDeadline
  unfold select
  split
  · next hnil =>
      have hnone := positionsFrom_eq_nil_iff.1 hnil
      simpa [hmem] using hnone
  · next i is hcons =>
      obtain ⟨earlier, t, later, hordered, rfl, ht, -⟩ := positionsFrom_eq_cons hcons
      have ht' : t ∈ s.units.tasks := by
        rw [← hmem, hordered]
        exact List.mem_append_right _ List.mem_cons_self
      have hget : s.ordered[0 + earlier.length]? = some t := by simp [hordered]
      rw [hget]
      exact iff_of_false nofun fun hnone => hnone t ht' ht

theorem selects_of_select (h : select s.ordered now unit = some (i, t, active)) :
    s.Selects now unit (s.ordered.take i) t := by
  unfold select at h
  split at h
  · simp at h
  · next i' is hcons =>
      obtain ⟨earlier, t', later, hordered, rfl, ht, hearlier⟩ := positionsFrom_eq_cons hcons
      have hget : s.ordered[0 + earlier.length]? = some t' := by simp [hordered]
      rw [hget] at h
      obtain ⟨rfl, rfl, -⟩ : 0 + earlier.length = i ∧ t' = t ∧ is.length + 1 = active := by
        simpa using h
      refine ⟨FirstDue.of_byDeadline hordered ht hearlier, later, ?_⟩
      simp [hordered]

/-! ## Selection in a list of tasks -/

section Lists

variable {ts earlier : List Task}

/-- The selected task is the first candidate. -/
theorem split_of_select (h : select ts now unit = some (i, t, active)) :
    ∃ earlier later, ts = earlier ++ t :: later ∧ earlier.length = i ∧ isCandidate now unit t ∧
      ∀ u ∈ earlier, ¬ isCandidate now unit u := by
  unfold select at h
  split at h
  · simp at h
  · next i' is hcons =>
      obtain ⟨earlier, t', later, rfl, rfl, ht, hearlier⟩ := positionsFrom_eq_cons hcons
      rw [Nat.zero_add, List.getElem?_append_right (Nat.le_refl _), Nat.sub_self] at h
      obtain ⟨hi, rfl, -⟩ : earlier.length = i ∧ t' = t ∧ is.length + 1 = active := by
        simpa using h
      exact ⟨earlier, later, rfl, hi, ht, hearlier⟩

theorem select_of_split (ht : isCandidate now unit t)
    (hearlier : ∀ u ∈ earlier, ¬ isCandidate now unit u) (later : List Task) :
    ∃ active, select (earlier ++ t :: later) now unit = some (earlier.length, t, active) := by
  obtain ⟨is, hpositions⟩ := positionsFrom_of_split ht hearlier later 0
  refine ⟨is.length + 1, ?_⟩
  unfold select positions
  rw [hpositions]
  simp

/-- Only the tasks of its unit matter for the selection of a task of this unit. -/
theorem select_filter {key : String} (h : select ts now (some key) = some (i, t, active)) :
    ∃ i' active', select (ts.filter (·.unit = key)) now none = some (i', t, active') ∧
      (ts.filter (·.unit = key)).take i' = (ts.take i).filter (·.unit = key) ∧ t.unit = key := by
  obtain ⟨earlier, later, rfl, rfl, ht, hearlier⟩ := split_of_select h
  obtain ⟨hactive, hkey⟩ := isCandidate_iff.1 ht
  have hunit : t.unit = key := (hkey key rfl).symm
  have hfilter : (earlier ++ t :: later).filter (·.unit = key) =
      earlier.filter (·.unit = key) ++ t :: later.filter (·.unit = key) := by
    rw [List.filter_append, List.filter_cons_of_pos (by simpa using hunit)]
  have hfirst : ∀ u ∈ earlier.filter (·.unit = key), ¬ isCandidate now none u := by
    intro u hu hcandidate
    obtain ⟨hmem, hukey⟩ := List.mem_filter.1 hu
    refine hearlier u hmem (isCandidate_iff.2 ⟨(isCandidate_iff.1 hcandidate).1, ?_⟩)
    rintro v ⟨⟩
    exact (of_decide_eq_true hukey).symm
  have ht' : isCandidate now none t := isCandidate_iff.2 ⟨hactive, by rintro v ⟨⟩⟩
  obtain ⟨active', hselect⟩ := select_of_split ht' hfirst (later.filter (·.unit = key))
  refine ⟨_, active', hfilter ▸ hselect, ?_, hunit⟩
  rw [hfilter, List.take_left, List.take_left]

theorem select_filter_eq_none {key : String} (h : select ts now (some key) = none) :
    select (ts.filter (·.unit = key)) now none = none := by
  cases hselect : select (ts.filter (·.unit = key)) now none with
  | none => rfl
  | some selected =>
      exfalso
      obtain ⟨i, t, active⟩ := selected
      obtain ⟨earlier, later, hfilter, -, ht, -⟩ := split_of_select hselect
      have hmem : t ∈ ts.filter (·.unit = key) := by
        rw [hfilter]
        exact List.mem_append_right _ List.mem_cons_self
      obtain ⟨hts, hunit⟩ := List.mem_filter.1 hmem
      have hcandidate : isCandidate now (some key) t := by
        refine isCandidate_iff.2 ⟨(isCandidate_iff.1 ht).1, ?_⟩
        rintro v ⟨⟩
        exact (of_decide_eq_true hunit).symm
      unfold select at h
      split at h
      · next hnil => exact positionsFrom_eq_nil_iff.1 hnil t hts hcandidate
      · next i is hcons =>
          obtain ⟨earlier, t', later, rfl, rfl, -, -⟩ := positionsFrom_eq_cons hcons
          simp at h

end Lists

end Checker

end Punctual
