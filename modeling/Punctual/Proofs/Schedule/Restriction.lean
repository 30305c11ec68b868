import Punctual.Proofs.Schedule.Order

/-!
# One unit of a schedule

The restriction of a schedule to a unit keeps the tasks of this unit and the horizon. Since ordering
by deadline is stable, its tasks stand in the same order as in the whole schedule
(`Schedule.ordered_restrictedTo`).
-/

namespace Punctual

variable {unit : String} {t : Task}

theorem mem_tasks_filter {units : Units} (h : t ∈ Units.tasks (units.filter (·.1 = unit))) :
    t ∈ units.tasks := by
  obtain ⟨entry, hentry, ht⟩ := List.mem_flatMap.1 h
  exact List.mem_flatMap.2 ⟨entry, (List.mem_filter.1 hentry).1, ht⟩

theorem tasks_filter (units : Units) :
    Units.tasks (units.filter (·.1 = unit)) = units.tasks.filter (·.unit = unit) := by
  induction units with
  | nil => rfl
  | cons entry units ih =>
      obtain ⟨name, slots⟩ := entry
      have hhead (us : Units) : Units.tasks ((name, slots) :: us) =
          (slots.map fun s => (⟨name, s.name, s.window⟩ : Task)) ++ us.tasks := rfl
      rw [hhead, List.filter_append, ← ih]
      by_cases hname : name = unit
      · have hall : (slots.map fun s => (⟨name, s.name, s.window⟩ : Task)).filter
            (·.unit = unit) = slots.map fun s => ⟨name, s.name, s.window⟩ := by
          refine List.filter_eq_self.2 fun t ht => ?_
          obtain ⟨s, -, rfl⟩ := List.mem_map.1 ht
          simpa using hname
        rw [List.filter_cons_of_pos (by simpa using hname), hhead, hall]
      · have hnone : (slots.map fun s => (⟨name, s.name, s.window⟩ : Task)).filter
            (·.unit = unit) = [] := by
          refine List.filter_eq_nil_iff.2 fun t ht => ?_
          obtain ⟨s, -, rfl⟩ := List.mem_map.1 ht
          simpa using hname
        rw [List.filter_cons_of_neg (by simpa using hname), hnone, List.nil_append]

namespace Schedule

/-- The schedule with the tasks of one unit only. -/
def restrictedTo (s : Schedule) (unit : String) : Schedule where
  horizon := s.horizon
  units := s.units.filter (·.1 = unit)
  opens_le_closes := s.opens_le_closes
  fitsIn t ht := s.fitsIn t (mem_tasks_filter ht)

theorem ordered_restrictedTo (s : Schedule) (unit : String) :
    (s.restrictedTo unit).ordered = s.ordered.filter (·.unit = unit) := by
  have htasks : (s.restrictedTo unit).units.tasks = s.units.tasks.filter (·.unit = unit) :=
    tasks_filter s.units
  rw [ordered, ordered, filter_byDeadline, htasks]

end Schedule

end Punctual
