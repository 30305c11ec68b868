import Punctual.Proofs.Specification.Occurrence

/-!
# Specifying a schedule task by task

A check specifies one task at a time and seeds the counts with the tasks before it. This module
proves that nothing is lost by that: the specifications of the single tasks, each counting on from
the one before it, have together the targets and the final counts of the specification of the whole
schedule (`Schedule.specified_one_by_one`).
-/

namespace Punctual

namespace Counts

variable {counts next : Counts} {t : Task} {ts : List Task} {unit name : String}

/-- The counts after some more tasks. -/
abbrev after (counts : Counts) (ts : List Task) : Except Fault Counts :=
  ts.foldlM (fun c t => c.increment t.unit t.name) counts

theorem increment_of_lt (h : counts.get unit name < maxCount) :
    counts.increment unit name = .ok (counts.set unit name (counts.get unit name + 1)) :=
  if_pos h

theorem increment_of_not_lt (h : ¬ counts.get unit name < maxCount) :
    counts.increment unit name = .error .sumOutOfRange :=
  if_neg h

theorem after_cons (h : counts.increment t.unit t.name = .ok next) :
    counts.after (t :: ts) = next.after ts := by
  unfold after
  rw [List.foldlM_cons, h]
  rfl

theorem after_cons_of_not_lt (h : ¬ counts.get t.unit t.name < maxCount) :
    counts.after (t :: ts) = .error .sumOutOfRange := by
  unfold after
  rw [List.foldlM_cons, increment_of_not_lt h]
  rfl

/-- Counting fails only on a task that would be counted more often than a count can say. -/
theorem after_total (counts : Counts) (ts : List Task) :
    (∃ last, counts.after ts = .ok last) ∨
      counts.after ts = .error .sumOutOfRange ∧
        ∃ t ∈ ts, maxCount <
          counts.get t.unit t.name + ts.countP fun u => u.unit = t.unit ∧ u.name = t.name := by
  induction ts generalizing counts with
  | nil => exact .inl ⟨counts, rfl⟩
  | cons t ts ih =>
      by_cases hroom : counts.get t.unit t.name < maxCount
      · have hnext := increment_of_lt hroom
        rw [after_cons hnext]
        rcases ih (counts.set t.unit t.name (counts.get t.unit t.name + 1)) with hok | hfault
        · exact .inl hok
        · obtain ⟨herror, u, hu, hmany⟩ := hfault
          refine .inr ⟨herror, u, List.mem_cons_of_mem _ hu, ?_⟩
          -- what the first task adds to the counts is what it adds to the tasks to be counted
          rw [get_of_increment hnext] at hmany
          rw [List.countP_cons]
          simpa [Nat.add_assoc, Nat.add_comm, Nat.add_left_comm] using hmany
      · refine .inr ⟨after_cons_of_not_lt hroom, t, List.mem_cons_self, ?_⟩
        rw [List.countP_cons_of_pos (by simp)]
        omega

/-- No count gets greater than the greatest one. -/
theorem get_le_of_after (hle : counts.get unit name ≤ maxCount) (h : counts.after ts = .ok next) :
    next.get unit name ≤ maxCount := by
  induction ts generalizing counts with
  | nil =>
      obtain rfl := except_pure_eq_ok.1 h
      exact hle
  | cons t ts ih =>
      by_cases hroom : counts.get t.unit t.name < maxCount
      · have hnext := increment_of_lt hroom
        refine ih ?_ ((after_cons hnext).symm.trans h)
        rw [get_of_increment hnext]
        split
        · next heq =>
            obtain ⟨rfl, rfl⟩ := heq
            exact hroom
        · exact hle
      · exact absurd ((after_cons_of_not_lt hroom).symm.trans h) (by simp)

/-- A list that is no longer than the greatest count can be counted from nothing. -/
theorem after_empty_of_length_le (h : ts.length ≤ maxCount) : ∃ last, empty.after ts = .ok last := by
  rcases after_total empty ts with hok | ⟨-, t, -, hmany⟩
  · exact hok
  · have hnone : empty.get t.unit t.name = 0 := rfl
    have hall := List.countP_le_length
      (p := fun u : Task => decide (u.unit = t.unit ∧ u.name = t.name)) (l := ts)
    omega

end Counts

namespace DeadlineSpec

variable {counts last next : Counts} {s : Schedule} {t : Task} {ts : List Task}

/-- Counting one task gives its target and its count. -/
theorem count_cons_of_increment (h : counts.increment t.unit t.name = .ok next) :
    count counts (t :: ts) =
      (count next ts).map fun (targets, last) => (counts.targetOf t :: targets, last) := by
  have hget : next.get t.unit t.name = counts.get t.unit t.name + 1 := by
    rw [Counts.get_of_increment h]
    simp
  simp only [count, h, hget]
  cases count next ts <;> rfl

theorem count_cons_of_fault {f : Fault} (h : counts.increment t.unit t.name = .error f) :
    count counts (t :: ts) = .error f := by
  simp only [count, h]

/-- Tasks are counted only if the first of them is. -/
theorem exists_of_count_cons {targets : List Target}
    (h : count counts (t :: ts) = .ok (targets, last)) :
    ∃ next rest, counts.increment t.unit t.name = .ok next ∧ count next ts = .ok (rest, last) ∧
      targets = counts.targetOf t :: rest := by
  cases hnext : counts.increment t.unit t.name with
  | error f =>
      rw [count_cons_of_fault hnext] at h
      simp at h
  | ok next =>
      rw [count_cons_of_increment hnext] at h
      cases hrest : count next ts with
      | error f =>
          rw [hrest] at h
          simp [Except.map] at h
      | ok found =>
          rw [hrest] at h
          obtain ⟨rfl, rfl⟩ := Prod.mk.inj (Except.ok.inj h)
          exact ⟨next, found.1, rfl, hrest, rfl⟩

/-- The target at a position is the next occurrence of its task after all tasks before it. -/
theorem count_of_after (h : counts.after ts = .ok last) :
    ∃ targets, count counts ts = .ok (targets, last) ∧
      ∀ i t, ts[i]? = some t → ∃ before, counts.after (ts.take i) = .ok before ∧
        before.get t.unit t.name < maxCount ∧ targets[i]? = some (before.targetOf t) := by
  induction ts generalizing counts with
  | nil =>
      obtain rfl := except_pure_eq_ok.1 h
      exact ⟨[], rfl, by simp⟩
  | cons u us ih =>
      by_cases hroom : counts.get u.unit u.name < maxCount
      · have hnext := Counts.increment_of_lt hroom
        rw [Counts.after_cons hnext] at h
        obtain ⟨targets, hcount, hat⟩ := ih h
        refine ⟨counts.targetOf u :: targets, ?_, ?_⟩
        · rw [count_cons_of_increment hnext, hcount]
          rfl
        · intro i t hi
          cases i with
          | zero =>
              obtain rfl := Option.some.inj hi
              exact ⟨counts, rfl, hroom, rfl⟩
          | succ i =>
              obtain ⟨before, hbefore, hless, htarget⟩ := hat i t hi
              refine ⟨before, ?_, hless, htarget⟩
              rw [List.take_succ_cons, Counts.after_cons hnext]
              exact hbefore
      · have hstop : counts.after (u :: us) = .error .sumOutOfRange :=
          Counts.after_cons_of_not_lt hroom
        exact absurd (hstop.symm.trans h) (by simp)

/-- The specification of a schedule of one task. -/
theorem ofSchedule_eq_map (counts : Counts) (hs : s.ordered = [t]) :
    ofSchedule counts s = (counts.increment t.unit t.name).map fun next =>
      ⟨countersBeyond counts next, [counts.targetOf t], next⟩ := by
  unfold ofSchedule
  rw [hs]
  cases hnext : counts.increment t.unit t.name with
  | ok next =>
      rw [count_cons_of_increment hnext]
      rfl
  | error f =>
      rw [count_cons_of_fault hnext]
      rfl

end DeadlineSpec

namespace Schedule

variable {s : Schedule}

/-- Specifies tasks one at a time, each on its own and from the counts that the one before it
leaves; gives all targets and the last counts. -/
def specifyEach (s : Schedule) :
    Counts → List Task → Except (Stop ScheduleError) (List Target × Counts)
  | counts, [] => .ok ([], counts)
  | counts, t :: ts => do
    let sub ← (s.single t).mapError Stop.error
    let spec ← (DeadlineSpec.ofSchedule counts sub).mapError Stop.fault
    let (targets, last) ← s.specifyEach spec.finalCounts ts
    return (spec.targets ++ targets, last)

/-- One task more: its specification hands on exactly the counts with which a count of the whole
list goes on. -/
theorem specifyEach_eq_count {ts : List Task} (hfits : ∀ t ∈ ts, t.window.FitsIn s.horizon)
    (counts : Counts) :
    s.specifyEach counts ts = (DeadlineSpec.count counts ts).mapError Stop.fault := by
  induction ts generalizing counts with
  | nil => rfl
  | cons t ts ih =>
      obtain ⟨sub, hsub, hordered⟩ := single_eq_ok (hfits t List.mem_cons_self)
      have hspec := DeadlineSpec.ofSchedule_eq_map counts hordered
      have htail := ih fun u hu => hfits u (List.mem_cons_of_mem _ hu)
      unfold specifyEach
      rw [hsub]
      change ((DeadlineSpec.ofSchedule counts sub).mapError Stop.fault >>= _) = _
      rw [hspec]
      cases hnext : counts.increment t.unit t.name with
      | error f =>
          rw [DeadlineSpec.count_cons_of_fault hnext]
          rfl
      | ok next =>
          rw [DeadlineSpec.count_cons_of_increment hnext]
          change (s.specifyEach next ts >>= _) = _
          rw [htail]
          cases DeadlineSpec.count next ts <;> rfl

/-- The target that a check asks about at a position is the one at this position of the whole
specification, and specifying all tasks one after another, from any counts, is the same as
specifying the schedule at once. -/
theorem specified_one_by_one (s : Schedule) :
    (s.taskCount ≤ maxCount →
      ∃ whole, DeadlineSpec.ofSchedule .empty s = .ok whole ∧
        ∀ i t, s.ordered[i]? = some t →
          ∃ counts sub spec target, Counts.ofTasks (s.ordered.take i) = .ok counts ∧
            s.single t = .ok sub ∧ DeadlineSpec.ofSchedule counts sub = .ok spec ∧
            spec.targetOf? t = some target ∧ whole.targets[i]? = some target) ∧
      ∀ initial, s.specifyEach initial s.ordered =
        ((DeadlineSpec.ofSchedule initial s).map fun spec =>
          (spec.targets, spec.finalCounts)).mapError Stop.fault := by
  have hfits : ∀ t ∈ s.ordered, t.window.FitsIn s.horizon :=
    fun t ht => s.fitsIn t ((byDeadline_perm _).mem_iff.1 ht)
  constructor
  · intro hfew
    have hlength : s.ordered.length ≤ maxCount := by
      rw [ordered, (byDeadline_perm _).length_eq]
      exact hfew
    obtain ⟨last, hlast⟩ := Counts.after_empty_of_length_le hlength
    obtain ⟨targets, hcount, hat⟩ := DeadlineSpec.count_of_after hlast
    refine ⟨⟨DeadlineSpec.countersBeyond .empty last, targets, last⟩, ?_, ?_⟩
    · rw [DeadlineSpec.ofSchedule, hcount]
    · intro i t hi
      obtain ⟨counts, hcounts, hroom, htarget⟩ := hat i t hi
      obtain ⟨sub, hsub, hordered⟩ := single_eq_ok (hfits t (List.mem_of_getElem? hi))
      obtain ⟨spec, hspec, hfound⟩ := DeadlineSpec.ofSchedule_of_ordered hordered hroom
      exact ⟨counts, sub, spec, counts.targetOf t, hcounts, hsub, hspec, hfound, htarget⟩
  · intro initial
    rw [specifyEach_eq_count hfits, DeadlineSpec.ofSchedule]
    cases DeadlineSpec.count initial s.ordered <;> rfl

/-- Two units, one of which runs a task twice with the same deadline as the task of the other. -/
def interleaved : Schedule where
  horizon := ⟨0, 9⟩
  units := [("m", [⟨"a", ⟨0, 5⟩⟩, ⟨"a", ⟨2, 5⟩⟩]), ("k", [⟨"a", ⟨0, 3⟩⟩, ⟨"b", ⟨1, 5⟩⟩])]
  opens_le_closes := by decide
  fitsIn := by decide

theorem interleaved_specified_one_by_one :
    interleaved.taskCount ≤ maxCount ∧
      ∃ whole, DeadlineSpec.ofSchedule .empty interleaved = .ok whole ∧
        ∃ counts sub spec target, Counts.ofTasks (interleaved.ordered.take 2) = .ok counts ∧
          interleaved.single ⟨"m", "a", ⟨2, 5⟩⟩ = .ok sub ∧
          DeadlineSpec.ofSchedule counts sub = .ok spec ∧
          spec.targetOf? ⟨"m", "a", ⟨2, 5⟩⟩ = some target ∧ whole.targets[2]? = some target := by
  have hfew : interleaved.taskCount ≤ maxCount := by decide
  obtain ⟨whole, hwhole, hat⟩ := (specified_one_by_one interleaved).1 hfew
  exact ⟨hfew, whole, hwhole, hat 2 _ (by decide)⟩

end Schedule

end Punctual
