import Punctual.Proofs.Ending
import Punctual.Proofs.Keyed
import Punctual.Specification.Deadlines

/-!
# The specification of one occurrence

A check asks about one task at a time, with a schedule that holds nothing else and with counts that
stand for all tasks before it. Such a schedule exists whenever the window of the task fits the
horizon, and its specification has exactly one target: the next occurrence of the task, with
whatever deadline the schedule gives it.
-/

namespace Punctual

namespace Schedule

variable {s sub : Schedule} {t : Task} {deadline : Time}

theorem ofUnits_eq_ok {horizon : Window} {units : Units} (hopen : horizon.opens ≤ horizon.closes)
    (hfits : ∀ t ∈ units.tasks, t.window.FitsIn horizon) :
    ofUnits horizon units = .ok ⟨horizon, units, hopen, hfits⟩ := by
  have hnone : units.tasks.findSome? (Task.fault? horizon) = none :=
    List.findSome?_eq_none_iff.2 fun t ht => Task.fault?_eq_none_iff.2 (hfits t ht)
  unfold ofUnits
  rw [dif_pos hopen]
  split
  · next e he => exact absurd (hnone.symm.trans he) (by simp)
  · rfl

/-- Units make the schedule that has them, if there is one. -/
theorem ofUnits_eq_ok_iff {horizon : Window} {units : Units} :
    ofUnits horizon units = .ok s ↔ s.horizon = horizon ∧ s.units = units := by
  constructor
  · intro h
    unfold ofUnits at h
    split at h
    · split at h
      · simp at h
      · obtain rfl := Except.ok.inj h
        exact ⟨rfl, rfl⟩
    · simp at h
  · rintro ⟨rfl, rfl⟩
    exact ofUnits_eq_ok s.opens_le_closes s.fitsIn

@[simp] theorem tasks_single (t : Task) : Units.tasks [(t.unit, [⟨t.name, t.window⟩])] = [t] :=
  rfl

/-- A task whose window fits the horizon can stand alone. -/
theorem single_eq_ok (h : t.window.FitsIn s.horizon) :
    ∃ sub, s.single t = .ok sub ∧ sub.ordered = [t] := by
  have hfits : ∀ u ∈ Units.tasks [(t.unit, [⟨t.name, t.window⟩])],
      u.window.FitsIn s.horizon := by
    intro u hu
    rw [tasks_single, List.mem_singleton] at hu
    rw [hu]
    exact h
  exact ⟨_, ofUnits_eq_ok s.opens_le_closes hfits, rfl⟩

/-- A task of the schedule can stand alone with every later deadline within the horizon. -/
theorem relaxed_eq_ok (ht : t ∈ s.units.tasks) (hlate : t.deadline ≤ deadline)
    (hhorizon : deadline ≤ s.horizon.closes) :
    ∃ sub, s.relaxed t deadline = .ok sub ∧ sub.ordered = [t.withDeadline deadline] :=
  single_eq_ok ⟨Int.le_trans (s.fitsIn t ht).1 hlate, hhorizon⟩

end Schedule

namespace Counts

/-- The target of the next occurrence of a task. -/
def targetOf (counts : Counts) (t : Task) : Target :=
  ⟨t.unit, t.name, counts.get t.unit t.name + 1, t.deadline⟩

/-- A task that can be counted once more is. -/
theorem eq_set_of_increment {counts next : Counts} {unit name : String}
    (h : counts.increment unit name = .ok next) :
    next = counts.set unit name (counts.get unit name + 1) := by
  unfold increment at h
  split at h
  · exact (Except.ok.inj h).symm
  · simp at h

/-- Counting a task adds one to its pair, and nothing to any other. -/
theorem get_of_increment {counts next : Counts} {unit name : String}
    (h : counts.increment unit name = .ok next) (unit' name' : String) :
    next.get unit' name' =
      counts.get unit' name' + if unit = unit' ∧ name = name' then 1 else 0 := by
  rw [eq_set_of_increment h]
  by_cases heq : unit = unit' ∧ name = name'
  · obtain ⟨rfl, rfl⟩ := heq
    rw [get_set_self, if_pos ⟨rfl, rfl⟩]
  · have hne : (unit', name') ≠ (unit, name) := by
      rintro ⟨⟩
      exact heq ⟨rfl, rfl⟩
    rw [get_set_of_ne hne, if_neg heq, Nat.add_zero]

/-- Counting tasks adds to every pair the number of its tasks. -/
theorem get_of_foldlM {counts counts' : Counts} {ts : List Task}
    (h : ts.foldlM (fun c t => c.increment t.unit t.name) counts = .ok counts')
    (unit name : String) :
    counts'.get unit name =
      counts.get unit name + ts.countP fun t => t.unit = unit ∧ t.name = name := by
  induction ts generalizing counts with
  | nil =>
      obtain rfl := except_pure_eq_ok.1 h
      simp
  | cons t ts ih =>
      rw [List.foldlM_cons] at h
      obtain ⟨next, hnext, hrest⟩ := except_bind_eq_ok.1 h
      rw [ih hrest, get_of_increment hnext, List.countP_cons]
      simp only [decide_eq_true_eq]
      omega

/-- The counts of some tasks give for every pair the number of its tasks. -/
theorem get_ofTasks {counts : Counts} {ts : List Task} (h : ofTasks ts = .ok counts)
    (unit name : String) :
    counts.get unit name = ts.countP fun t => t.unit = unit ∧ t.name = name := by
  rw [get_of_foldlM h]
  simp [get, empty, find?]

/-- No pair has two entries. -/
def Distinct (c : Counts) : Prop :=
  c.pairs.Nodup

theorem distinct_empty : empty.Distinct :=
  List.nodup_nil

theorem Distinct.set {c : Counts} (h : c.Distinct) (unit name : String) (n : Nat) :
    (c.set unit name n).Distinct := by
  unfold Distinct pairs Counts.set
  rw [map_fst_upsert]
  split
  · exact h
  · next hnew =>
      refine List.nodup_append.2 ⟨h, by simp, ?_⟩
      intro p hp q hq hpq
      obtain rfl := List.mem_singleton.1 hq
      exact hnew (hpq ▸ hp)

theorem Distinct.of_increment {c next : Counts} {unit name : String} (h : c.Distinct)
    (hnext : c.increment unit name = .ok next) : next.Distinct := by
  rw [eq_set_of_increment hnext]
  exact h.set _ _ _

theorem Distinct.of_foldlM {c last : Counts} {ts : List Task} (h : c.Distinct)
    (hlast : ts.foldlM (fun c t => c.increment t.unit t.name) c = .ok last) : last.Distinct := by
  induction ts generalizing c with
  | nil =>
      obtain rfl := except_pure_eq_ok.1 hlast
      exact h
  | cons t ts ih =>
      rw [List.foldlM_cons] at hlast
      obtain ⟨next, hnext, hrest⟩ := except_bind_eq_ok.1 hlast
      exact ih (h.of_increment hnext) hrest

theorem distinct_of_ofTasks {counts : Counts} {ts : List Task} (h : ofTasks ts = .ok counts) :
    counts.Distinct :=
  distinct_empty.of_foldlM h

/-- The count of a pair is the number of its entry. -/
theorem Distinct.get_of_mem {c : Counts} (h : c.Distinct) {p : String × String} {n : Nat}
    (hmem : (p, n) ∈ c.entries) : c.get p.1 p.2 = n := by
  unfold get
  rw [find?_of_mem_of_nodup h hmem]
  rfl

end Counts

namespace DeadlineSpec

variable {counts : Counts} {s : Schedule} {t : Task}

/-- A schedule of one task has one target, unless its count is the greatest one. -/
theorem ofSchedule_of_ordered (hs : s.ordered = [t])
    (hcount : counts.get t.unit t.name < maxCount) :
    ∃ spec, ofSchedule counts s = .ok spec ∧ spec.targetOf? t = some (counts.targetOf t) := by
  refine ⟨_, by simp [ofSchedule, hs, count, Counts.increment, hcount]; rfl, ?_⟩
  simp [targetOf?, Target.isTargetOf, Counts.targetOf]

/-- Whether an entry is beyond the initial counts. -/
def isBeyond (initial : Counts) (e : (String × String) × Nat) : Bool :=
  initial.get e.1.1 e.1.2 < e.2

theorem countersBeyond_eq (initial last : Counts) :
    countersBeyond initial last =
      (last.entries.filter (isBeyond initial)).map fun e => ⟨counterVariable e.1.1 e.1.2, e.2⟩ :=
  rfl

/-- No entry that was there before is beyond its own count, so the new one stands alone. -/
theorem filter_isBeyond_upsert {p : String × String} {n : Nat} (hn : counts.get p.1 p.2 < n)
    {entries : List ((String × String) × Nat)}
    (hentries : ∀ e ∈ entries, counts.get e.1.1 e.1.2 = e.2) :
    (upsert p n entries).filter (isBeyond counts) = [(p, n)] := by
  induction entries with
  | nil => simp [upsert, isBeyond, hn]
  | cons e rest ih =>
      obtain ⟨q, m⟩ := e
      have hhead : counts.get q.1 q.2 = m := hentries _ List.mem_cons_self
      have hrest : ∀ e ∈ rest, counts.get e.1.1 e.1.2 = e.2 :=
        fun e he => hentries e (List.mem_cons_of_mem _ he)
      by_cases hsame : q = p
      · have hnone : rest.filter (isBeyond counts) = [] := by
          refine List.filter_eq_nil_iff.2 fun e he => ?_
          simp [isBeyond, hrest e he]
        rw [upsert, if_pos hsame, hsame, List.filter_cons_of_pos (by simp [isBeyond, hn]), hnone]
      · rw [upsert, if_neg hsame, List.filter_cons_of_neg (by simp [isBeyond, hhead]), ih hrest]

/-- Counting a task once more leaves its counter as the only one beyond the initial counts. -/
theorem countersBeyond_set (hdistinct : counts.Distinct) (unit name : String) :
    countersBeyond counts (counts.set unit name (counts.get unit name + 1)) =
      [⟨counterVariable unit name, counts.get unit name + 1⟩] := by
  have hentries : ∀ e ∈ counts.entries, counts.get e.1.1 e.1.2 = e.2 :=
    fun e he => hdistinct.get_of_mem he
  rw [countersBeyond_eq, Counts.set, filter_isBeyond_upsert (by simp) hentries]
  rfl

/-- The specification of one task: its counter, its target, and its count. -/
theorem ofSchedule_single (hdistinct : counts.Distinct) (hs : s.ordered = [t])
    (hcount : counts.get t.unit t.name < maxCount) :
    ofSchedule counts s =
      .ok ⟨[⟨counterVariable t.unit t.name, counts.get t.unit t.name + 1⟩],
        [counts.targetOf t], counts.set t.unit t.name (counts.get t.unit t.name + 1)⟩ := by
  have hbeyond := countersBeyond_set hdistinct t.unit t.name
  simp [ofSchedule, hs, count, Counts.increment, hcount, hbeyond, Counts.targetOf]

/-- A task whose count is the greatest one cannot be counted. -/
theorem ofSchedule_of_maxCount (hs : s.ordered = [t])
    (hcount : ¬ counts.get t.unit t.name < maxCount) :
    ofSchedule counts s = .error .sumOutOfRange := by
  simp [ofSchedule, hs, count, Counts.increment, hcount]

end DeadlineSpec

end Punctual
