import Mathlib.Data.List.Sort
import Punctual.Proofs.Schedule.Order

/-!
# The active tasks in order

Every occurrence of a task stands in a schedule at a place of its own: that of its unit, and that in
the list of its unit. Sorting by deadline keeps the order of these places among equal deadlines, so
that the active tasks are the active occurrences in the strict order of deadline and place
(`exists_arranged`), and their positions among all ordered tasks increase (`active_arranged`).
-/

namespace Punctual

/-! ## Occurrences and their places -/

/-- An occurrence of a task: the place of its unit, its place in the list of the unit, and the
task. -/
structure Placed where
  unitPlace : Nat
  place : Nat
  task : Task
  deriving DecidableEq, Repr

namespace Placed

/-- The occurrence stands in front of the other one in the schedule. -/
def StandsBefore (p q : Placed) : Prop :=
  p.unitPlace < q.unitPlace ∨ p.unitPlace = q.unitPlace ∧ p.place < q.place

/-- The occurrence is due before the other one, or at the same time and stands in front of it. -/
def Precedes (p q : Placed) : Prop :=
  p.task.deadline < q.task.deadline ∨
    p.task.deadline = q.task.deadline ∧ p.StandsBefore q

/-- The occurrence is not due after the other one. -/
abbrev NotAfter (p q : Placed) : Prop :=
  p.task.deadline ≤ q.task.deadline

theorem precedes_of_notAfter {p q : Placed} (hdue : p.NotAfter q) (hstands : p.StandsBefore q) :
    p.Precedes q := by
  rcases Int.lt_or_eq_of_le hdue with hlt | heq
  · exact .inl hlt
  · exact .inr ⟨heq, hstands⟩

end Placed

namespace Units

/-- The occurrences of the tasks of a unit. -/
def placedOn (unit : String) (unitPlace : Nat) (slots : List Slot) : List Placed :=
  slots.zipIdx.map fun (s, place) => ⟨unitPlace, place, ⟨unit, s.name, s.window⟩⟩

/-- The occurrences of all tasks, unit by unit. -/
def placed (units : Units) : List Placed :=
  units.zipIdx.flatMap fun ((unit, slots), unitPlace) => placedOn unit unitPlace slots

theorem map_task_placedOn (unit : String) (unitPlace : Nat) (slots : List Slot) :
    (placedOn unit unitPlace slots).map Placed.task =
      slots.map fun s => ⟨unit, s.name, s.window⟩ := by
  have hslots : (fun e : Slot × Nat => (⟨unit, e.1.name, e.1.window⟩ : Task)) =
      (fun s : Slot => ⟨unit, s.name, s.window⟩) ∘ Prod.fst := rfl
  rw [placedOn, List.map_map]
  change slots.zipIdx.map (fun e : Slot × Nat => (⟨unit, e.1.name, e.1.window⟩ : Task)) = _
  rw [hslots, ← List.map_map, List.zipIdx_map_fst]

/-- Without their places, the occurrences are the tasks in the order of the schedule. -/
theorem map_task_placed (units : Units) : units.placed.map Placed.task = units.tasks := by
  have hunits : ∀ k, (units.zipIdx k).flatMap (fun ((unit, slots), unitPlace) =>
      (placedOn unit unitPlace slots).map Placed.task) = units.tasks := by
    induction units with
    | nil => exact fun _ => rfl
    | cons entry units ih =>
        intro k
        obtain ⟨unit, slots⟩ := entry
        rw [List.zipIdx_cons, List.flatMap_cons, ih]
        exact congrArg (· ++ tasks units) (map_task_placedOn unit k slots)
  rw [placed, List.map_flatMap]
  exact hunits 0

/-- Occurrences are listed in the order of their places. -/
theorem pairwise_placed (units : Units) : units.placed.Pairwise Placed.StandsBefore := by
  have hplaces {α : Type} (as : List α) : as.zipIdx.Pairwise fun e f => e.2 < f.2 := by
    rw [← List.pairwise_map (f := Prod.snd), List.zipIdx_map_snd]
    exact List.pairwise_lt_range'
  apply List.pairwise_flatMap.2
  constructor
  · rintro ⟨⟨unit, slots⟩, unitPlace⟩ -
    apply List.pairwise_map.2
    exact (hplaces slots).imp fun h => .inr ⟨rfl, h⟩
  · apply (hplaces units).imp
    intro e f hlt p hp q hq
    obtain ⟨-, -, rfl⟩ := List.mem_map.1 hp
    obtain ⟨-, -, rfl⟩ := List.mem_map.1 hq
    exact .inl hlt

end Units

/-! ## Sorting occurrences -/

/-- A task goes behind those that are due before it. -/
theorem insertByDeadline_append {t : Task} {ts us : List Task}
    (hts : ∀ u ∈ ts, u.deadline < t.deadline) (hus : ∀ u ∈ us, t.deadline ≤ u.deadline) :
    insertByDeadline t (ts ++ us) = ts ++ t :: us := by
  induction ts with
  | nil => exact insertByDeadline_of_le hus
  | cons u ts ih =>
      obtain ⟨hu, hrest⟩ := List.forall_mem_cons.1 hts
      rw [List.cons_append, insertByDeadline_of_lt hu, ih hrest, List.cons_append]

/-- Ordering by deadline is the stable sort of the standard library. -/
theorem byDeadline_eq_mergeSort (ts : List Task) :
    byDeadline ts = ts.mergeSort fun t u => t.deadline ≤ u.deadline := by
  have htrans : ∀ t u v : Task, decide (t.deadline ≤ u.deadline) →
      decide (u.deadline ≤ v.deadline) → decide (t.deadline ≤ v.deadline) := by
    intro t u v htu huv
    exact decide_eq_true (Int.le_trans (of_decide_eq_true htu) (of_decide_eq_true huv))
  have htotal : ∀ t u : Task,
      decide (t.deadline ≤ u.deadline) || decide (u.deadline ≤ t.deadline) := by
    intro t u
    simpa using Int.le_total t.deadline u.deadline
  induction ts with
  | nil => exact List.mergeSort_nil.symm
  | cons t ts ih =>
      obtain ⟨us, vs, hwhole, hrest, hus⟩ := List.mergeSort_cons htrans htotal t ts
      have hordered := List.pairwise_mergeSort htrans htotal (t :: ts)
      rw [hwhole] at hordered
      obtain ⟨-, hvs, -⟩ := List.pairwise_append.1 hordered
      rw [byDeadline, ih, hrest, hwhole]
      apply insertByDeadline_append
      · intro u hu
        simpa using hus u hu
      · intro u hu
        exact of_decide_eq_true ((List.pairwise_cons.1 hvs).1 u hu)

theorem byDeadline_eq_insertionSort (ts : List Task) :
    byDeadline ts = ts.insertionSort fun t u => t.deadline ≤ u.deadline := by
  have hinsert (t : Task) (us : List Task) :
      insertByDeadline t us = us.orderedInsert (fun t u => t.deadline ≤ u.deadline) t := by
    induction us with
    | nil => rfl
    | cons u us ih => rw [insertByDeadline, List.orderedInsert_cons, ih]
  induction ts with
  | nil => rfl
  | cons t ts ih => rw [byDeadline, List.insertionSort_cons, ih, hinsert]

/-- Sorting tasks is sorting their occurrences. -/
theorem map_task_insertionSort (ps : List Placed) :
    (ps.insertionSort Placed.NotAfter).map Placed.task = byDeadline (ps.map Placed.task) := by
  rw [byDeadline_eq_insertionSort]
  apply List.map_insertionSort
  intro p _ q _
  rfl

/-- An occurrence that stands in front of all others is put in front of those that are not due
before it. -/
theorem pairwise_orderedInsert {p : Placed} {ps : List Placed} (h : ps.Pairwise Placed.Precedes)
    (hp : ∀ q ∈ ps, p.StandsBefore q) :
    (ps.orderedInsert Placed.NotAfter p).Pairwise Placed.Precedes := by
  induction ps with
  | nil => exact List.pairwise_singleton _ _
  | cons q ps ih =>
      obtain ⟨hq, hps⟩ := List.pairwise_cons.1 h
      rw [List.orderedInsert_cons]
      by_cases hdue : p.NotAfter q
      · rw [if_pos hdue]
        refine List.pairwise_cons.2 ⟨?_, h⟩
        intro r hr
        apply Placed.precedes_of_notAfter
        · rcases List.mem_cons.1 hr with rfl | hmem
          · exact hdue
          · rcases hq r hmem with hlt | ⟨heq, -⟩
            · exact Int.le_trans hdue (Int.le_of_lt hlt)
            · exact Int.le_trans hdue (Int.le_of_eq heq)
        · exact hp r hr
      · rw [if_neg hdue]
        refine List.pairwise_cons.2 ⟨?_, ih hps fun r hr => hp r (List.mem_cons_of_mem _ hr)⟩
        intro r hr
        rcases (List.mem_orderedInsert _).1 hr with rfl | hmem
        · exact .inl (Int.not_le.1 hdue)
        · exact hq r hmem

/-- Sorting keeps the order of places among equal deadlines. -/
theorem pairwise_insertionSort {ps : List Placed} (h : ps.Pairwise Placed.StandsBefore) :
    (ps.insertionSort Placed.NotAfter).Pairwise Placed.Precedes := by
  induction ps with
  | nil => exact List.Pairwise.nil
  | cons p ps ih =>
      obtain ⟨hp, hps⟩ := List.pairwise_cons.1 h
      rw [List.insertionSort_cons]
      apply pairwise_orderedInsert (ih hps)
      intro q hq
      exact hp q ((List.mem_insertionSort _).1 hq)

namespace Schedule

variable {now : Time} {unit : Option String} {ts : List Task}

/-! ## Positions of the active tasks -/

theorem positionsFrom_eq (k : Nat) (ts : List Task) :
    positionsFrom now unit k ts =
      ((ts.zipIdx k).filter fun e => isCandidate now unit e.1).map Prod.snd := by
  induction ts generalizing k with
  | nil => rfl
  | cons t ts ih =>
      rw [positionsFrom, List.zipIdx_cons, List.filter_cons, ih]
      by_cases ht : isCandidate now unit t <;> simp [ht]

/-- Positions come in increasing order. -/
theorem pairwise_positions (ts : List Task) : (positions ts now unit).Pairwise (· < ·) := by
  rw [positions, positionsFrom_eq]
  have hall : (ts.zipIdx.map Prod.snd).Pairwise (· < ·) := by
    rw [List.zipIdx_map_snd]
    exact List.pairwise_lt_range'
  exact hall.sublist (List.filter_sublist.map Prod.snd)

theorem mem_positions_iff {i : Nat} :
    i ∈ positions ts now unit ↔ ∃ t, ts[i]? = some t ∧ isCandidate now unit t := by
  rw [positions, positionsFrom_eq, List.mem_map]
  constructor
  · rintro ⟨⟨t, j⟩, he, rfl⟩
    obtain ⟨hmem, ht⟩ := List.mem_filter.1 he
    exact ⟨t, List.mem_zipIdx_iff_getElem?.1 hmem, ht⟩
  · rintro ⟨t, hget, ht⟩
    exact ⟨(t, i), List.mem_filter.2 ⟨List.mem_zipIdx_iff_getElem?.2 hget, ht⟩, rfl⟩

/-- The tasks at the positions are the candidates. -/
theorem map_getElem?_positions (ts : List Task) :
    (positions ts now unit).map (ts[·]?) = (ts.filter (isCandidate now unit)).map some := by
  have hfst : ts.filter (isCandidate now unit) =
      ((ts.zipIdx).filter fun e => isCandidate now unit e.1).map Prod.fst := by
    have hmap := List.filter_map (f := Prod.fst) (p := isCandidate now unit) (l := ts.zipIdx)
    rwa [List.zipIdx_map_fst] at hmap
  rw [positions, positionsFrom_eq, hfst, List.map_map, List.map_map]
  apply List.map_congr_left
  intro e he
  exact List.mem_zipIdx_iff_getElem?.1 (List.mem_filter.1 he).1

theorem active_eq_filter (s : Schedule) (now : Time) (unit : Option String) :
    s.active now unit = s.ordered.filter (isCandidate now unit) := by
  have hid : List.filterMap (s.ordered[·]?) (positions s.ordered now unit) =
      ((positions s.ordered now unit).map (s.ordered[·]?)).filterMap id := by
    rw [List.filterMap_map]
    rfl
  rw [active, hid, map_getElem?_positions, List.filterMap_map, Function.id_comp,
    List.filterMap_some]

/-! ## The order of the active tasks -/

/-- The active occurrences, each of them once, in the order of deadlines and places. -/
theorem exists_arranged (s : Schedule) (now : Time) (unit : Option String) :
    ∃ ps : List Placed, ps.Perm (s.units.placed.filter (isCandidate now unit ·.task)) ∧
      ps.Pairwise Placed.Precedes ∧ s.active now unit = ps.map Placed.task := by
  have hstands : (s.units.placed.filter (isCandidate now unit ·.task)).Pairwise
      Placed.StandsBefore := (Units.pairwise_placed s.units).filter _
  refine ⟨_, List.perm_insertionSort Placed.NotAfter _, pairwise_insertionSort hstands, ?_⟩
  have hcandidates : (s.units.placed.filter (isCandidate now unit ·.task)).map Placed.task =
      s.units.tasks.filter (isCandidate now unit) := by
    rw [← Units.map_task_placed, List.filter_map]
    rfl
  rw [map_task_insertionSort, hcandidates, ← filter_byDeadline, active_eq_filter]
  rfl

/-- How the active tasks are arranged at a time, on the given unit if one is given. -/
structure Arranged (s : Schedule) (now : Time) (unit : Option String) : Prop where
  /-- They can be picked first and sorted afterwards, by the stable sort of the standard library. -/
  sorted : s.active now unit =
    (s.units.tasks.filter (isCandidate now unit)).mergeSort fun t u => t.deadline ≤ u.deadline
  /-- They are the occurrences of active tasks, each of them once, in the order of their deadlines
  and, where these are equal, of their units and of their places in the unit. -/
  occurrences : ∃ ps : List Placed,
    ps.Perm (s.units.placed.filter (isCandidate now unit ·.task)) ∧
      ps.Pairwise Placed.Precedes ∧ s.active now unit = ps.map Placed.task
  /-- Their positions among the ordered tasks increase. -/
  increasing : (positions s.ordered now unit).Pairwise (· < ·)
  /-- The positions are those at which an active task stands. -/
  mem_iff : ∀ i, i ∈ positions s.ordered now unit ↔
    ∃ t, s.ordered[i]? = some t ∧ isCandidate now unit t
  /-- At the positions stand the active tasks, one after the other. -/
  found : (positions s.ordered now unit).map (s.ordered[·]?) = (s.active now unit).map some
  /-- At the first position stands the task with the earliest deadline among the active ones, and
  among several with this deadline the first one of the schedule. -/
  first : ∀ i is, positions s.ordered now unit = i :: is →
    ∃ t, s.ordered[i]? = some t ∧ FirstDue (isCandidate now unit) s.units.tasks t

theorem active_arranged (s : Schedule) (now : Time) (unit : Option String) :
    s.Arranged now unit := by
  constructor
  · rw [active_eq_filter, ← byDeadline_eq_mergeSort]
    exact filter_byDeadline _ _
  · exact exists_arranged s now unit
  · exact pairwise_positions s.ordered
  · exact fun _ => mem_positions_iff
  · rw [map_getElem?_positions, active_eq_filter]
  · intro i is hcons
    obtain ⟨earlier, t, later, hordered, rfl, ht, hearlier⟩ := positionsFrom_eq_cons hcons
    refine ⟨t, ?_, FirstDue.of_byDeadline hordered ht hearlier⟩
    rw [hordered, Nat.zero_add, List.getElem?_append_right (Nat.le_refl _), Nat.sub_self]
    rfl

end Schedule

end Punctual
