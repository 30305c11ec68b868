import Punctual.Proofs.Check.Selection

/-!
# Which occurrences are ever checked

A call checks one task: of those that are active at its time, the first in the order of deadlines.
An occurrence that stands behind others is checked at the times of its window that lie in none of
their windows. So it can be shadowed: if the windows in front of it cover its own, no call without
a key unit is ever about it (`checked_at_some_time_iff`).

Only occurrences with the same deadline can shadow each other at the deadline. Where deadlines
differ, calling at the deadlines, one after the other, checks all tasks.
-/

namespace Punctual

/-- Every time of the window lies in one of the others. -/
def Window.IsCoveredBy (w : Window) (ws : List Window) : Prop :=
  ∀ now, w.contains now → ∃ v ∈ ws, v.contains now

/-- The check of an occurrence that has these tasks in front of it: they are counted, so that it is
known which occurrence it is. -/
def Checker.checkBehind {σ : Type} (c : Checker σ) (s : Schedule) (state : PlantState)
    (active : Nat) (earlier : List Task) (t : Task) : Check σ Verdict := do
  if 1 < active then
    Check.warn (toString active ++ " tasks are active at time " ++ toString state.time ++
      ", only checking " ++ t.text)
  Check.info ("Checking task " ++ t.text ++ " at time " ++ toString state.time)
  let counts ← Action.ofFault (Counts.ofTasks earlier)
  c.checkTask s state counts t

namespace Schedule

variable {s : Schedule} {earlier later : List Task} {t : Task} {now : Time}

/-- A call at a time, for all units, is about the occurrence that has these tasks in front of it. -/
def IsCheckedAt (s : Schedule) (now : Time) (earlier : List Task) (t : Task) : Prop :=
  (∃ later, s.ordered = earlier ++ t :: later) ∧
    ∃ active, Checker.select s.ordered now none = some (earlier.length, t, active)

theorem isCandidate_none_iff : isCandidate now none t ↔ t.isActiveAt now := by
  simp [isCandidate]

/-- An occurrence is checked while it is active and no task in front of it is. -/
theorem isCheckedAt_iff (h : s.ordered = earlier ++ t :: later) :
    s.IsCheckedAt now earlier t ↔ t.isActiveAt now ∧ ∀ u ∈ earlier, ¬ u.isActiveAt now := by
  constructor
  · rintro ⟨-, active, hselect⟩
    obtain ⟨front, back, hordered, hlength, ht, hfront⟩ := Checker.split_of_select hselect
    -- the selected occurrence is the one at this place, not an equal one elsewhere
    obtain ⟨rfl, -⟩ := List.append_inj (h.symm.trans hordered) hlength.symm
    exact ⟨isCandidate_none_iff.1 ht, fun u hu hactive =>
      hfront u hu (isCandidate_none_iff.2 hactive)⟩
  · rintro ⟨ht, hearlier⟩
    refine ⟨⟨later, h⟩, ?_⟩
    rw [h]
    exact Checker.select_of_split (isCandidate_none_iff.2 ht)
      (fun u hu hcandidate => hearlier u hu (isCandidate_none_iff.1 hcandidate)) later

theorem isActiveAt_deadline (s : Schedule) (ht : t ∈ s.units.tasks) : t.isActiveAt t.deadline := by
  have hopens : t.window.opens ≤ t.window.closes := (s.fitsIn t ht).1
  simp [Task.isActiveAt, Window.contains, Task.deadline, hopens]

/-- The tasks in front of an occurrence are due by its deadline. -/
theorem deadline_le_of_ordered (h : s.ordered = earlier ++ t :: later) :
    ∀ u ∈ earlier, u.deadline ≤ t.deadline := by
  intro u hu
  have hordered : Ordered (earlier ++ t :: later) := h ▸ pairwise_byDeadline s.units.tasks
  exact (List.pairwise_append.1 hordered).2.2 u hu t List.mem_cons_self

/-- A task that is due before a time is not active then. -/
theorem not_isActiveAt_of_lt (h : t.deadline < now) : ¬ t.isActiveAt now := by
  intro hactive
  simp only [Task.isActiveAt, Window.contains, Bool.and_eq_true, decide_eq_true_eq] at hactive
  exact absurd hactive.2 (Int.not_le.2 h)

theorem isCheckedAt_deadline (h : s.ordered = earlier ++ t :: later)
    (hdue : ∀ u ∈ earlier, u.deadline ≠ t.deadline) : s.IsCheckedAt t.deadline earlier t := by
  have ht : t ∈ s.units.tasks := by
    rw [← mem_byDeadline, ← ordered, h]
    exact List.mem_append_right _ List.mem_cons_self
  refine (isCheckedAt_iff h).2 ⟨s.isActiveAt_deadline ht, fun u hu => ?_⟩
  have hle := deadline_le_of_ordered h u hu
  exact not_isActiveAt_of_lt (Int.lt_iff_le_and_ne.2 ⟨hle, hdue u hu⟩)

theorem checkActive_of_isCheckedAt {σ : Type} {c : Checker σ} {state : PlantState}
    (hunit : c.options.keyUnit = none) (h : s.IsCheckedAt state.time earlier t) :
    ∃ active, c.checkActive s state = c.checkBehind s state active earlier t := by
  obtain ⟨⟨later, hordered⟩, active, hselect⟩ := h
  refine ⟨active, ?_⟩
  have hearlier : s.ordered.take earlier.length = earlier := by rw [hordered, List.take_left]
  unfold Checker.checkActive Checker.checkBehind
  rw [hunit, hselect]
  dsimp only
  rw [hearlier]

/-- Some call within its window checks an occurrence exactly if the windows in front of it do not
cover its own. This is so for every occurrence that is due after all in front of it: it is checked
at its deadline. A call that checks an occurrence does so with the counts of the tasks in front of
it, whatever the checker. -/
theorem checked_at_some_time_iff (h : s.ordered = earlier ++ t :: later) :
    ((∃ now, t.isActiveAt now ∧ s.IsCheckedAt now earlier t) ↔
      ¬ t.window.IsCoveredBy (earlier.map Task.window)) ∧
    ((∀ u ∈ earlier, u.deadline ≠ t.deadline) → s.IsCheckedAt t.deadline earlier t) ∧
    ∀ (σ : Type) (c : Checker σ) (state : PlantState), c.options.keyUnit = none →
      s.IsCheckedAt state.time earlier t →
        ∃ active, c.checkActive s state = c.checkBehind s state active earlier t := by
  refine ⟨?_, isCheckedAt_deadline h, fun σ c state => checkActive_of_isCheckedAt⟩
  constructor
  · rintro ⟨now, hactive, hchecked⟩ hcovered
    obtain ⟨w, hw, hcontains⟩ := hcovered now hactive
    obtain ⟨u, hu, rfl⟩ := List.mem_map.1 hw
    exact ((isCheckedAt_iff h).1 hchecked).2 u hu hcontains
  · intro huncovered
    unfold Window.IsCoveredBy at huncovered
    push Not at huncovered
    obtain ⟨now, hactive, hfree⟩ := huncovered
    refine ⟨now, hactive, (isCheckedAt_iff h).2 ⟨hactive, fun u hu => ?_⟩⟩
    exact hfree u.window (List.mem_map_of_mem hu)

theorem shadowing_fitsIn :
    (Units.tasks [("u", [⟨"c", ⟨2, 8⟩⟩, ⟨"a", ⟨0, 5⟩⟩, ⟨"b", ⟨5, 5⟩⟩])]).all fun t =>
      t.window.FitsIn ⟨0, 8⟩ := by
  decide

/-- Three tasks. The first two are due at the same time, and the second one can only run then. -/
def shadowing : Schedule where
  horizon := ⟨0, 8⟩
  units := [("u", [⟨"c", ⟨2, 8⟩⟩, ⟨"a", ⟨0, 5⟩⟩, ⟨"b", ⟨5, 5⟩⟩])]
  opens_le_closes := by decide
  fitsIn t ht := of_decide_eq_true (List.all_eq_true.1 shadowing_fitsIn t ht)

theorem ordered_shadowing :
    shadowing.ordered = [⟨"u", "a", ⟨0, 5⟩⟩, ⟨"u", "b", ⟨5, 5⟩⟩, ⟨"u", "c", ⟨2, 8⟩⟩] := by
  decide

theorem checked_at_some_time_iff_unshadowed :
    shadowing.ordered = [⟨"u", "a", ⟨0, 5⟩⟩, ⟨"u", "b", ⟨5, 5⟩⟩] ++ ⟨"u", "c", ⟨2, 8⟩⟩ :: [] ∧
      shadowing.IsCheckedAt 8 [⟨"u", "a", ⟨0, 5⟩⟩, ⟨"u", "b", ⟨5, 5⟩⟩] ⟨"u", "c", ⟨2, 8⟩⟩ ∧
      ¬ Window.IsCoveredBy ⟨2, 8⟩ [⟨0, 5⟩, ⟨5, 5⟩] := by
  have hsplit : shadowing.ordered =
      [⟨"u", "a", ⟨0, 5⟩⟩, ⟨"u", "b", ⟨5, 5⟩⟩] ++ ⟨"u", "c", ⟨2, 8⟩⟩ :: [] := ordered_shadowing
  obtain ⟨huncovered, hdeadline, -⟩ := checked_at_some_time_iff hsplit
  have hchecked := hdeadline (by simp [Task.deadline])
  exact ⟨ordered_shadowing, hchecked, huncovered.1 ⟨8, by decide, hchecked⟩⟩

/-- Not every occurrence is checked by some call within its window. -/
theorem not_every_occurrence_checked :
    ¬ ∀ (s : Schedule) (earlier later : List Task) (t : Task), s.ordered = earlier ++ t :: later →
      ∃ now, t.isActiveAt now ∧ s.IsCheckedAt now earlier t := by
  intro hall
  obtain ⟨now, hactive, hchecked⟩ :=
    hall shadowing [⟨"u", "a", ⟨0, 5⟩⟩] [⟨"u", "c", ⟨2, 8⟩⟩] ⟨"u", "b", ⟨5, 5⟩⟩ ordered_shadowing
  have hsplit : shadowing.ordered =
      [⟨"u", "a", ⟨0, 5⟩⟩] ++ ⟨"u", "b", ⟨5, 5⟩⟩ :: [⟨"u", "c", ⟨2, 8⟩⟩] := ordered_shadowing
  obtain ⟨-, hearlier⟩ := (isCheckedAt_iff hsplit).1 hchecked
  -- the only time at which the second task can run lies in the window of the first one
  have hnow : now = 5 := by
    simp only [Task.isActiveAt, Window.contains, Bool.and_eq_true, decide_eq_true_eq] at hactive
    exact Int.le_antisymm hactive.2 hactive.1
  subst hnow
  exact hearlier _ List.mem_cons_self (by decide)

end Schedule

end Punctual
