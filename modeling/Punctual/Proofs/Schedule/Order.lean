import Mathlib.Tactic.Common
import Punctual.Schedule.Order

/-!
# The order of tasks

Ordering by deadline is a stable sort (`stablyOrdered_byDeadline`): the tasks come out with
increasing deadlines (`pairwise_byDeadline`), and picking some of them before or after ordering makes
no difference (`filter_byDeadline`). So the first candidate in the order is the candidate with the
earliest deadline, and the first one in the schedule among those with this deadline
(`FirstDue.of_byDeadline`).
-/

namespace Punctual

variable {t u : Task} {ts us : List Task}

/-! ## A stable sort -/

theorem mem_insertByDeadline : u ∈ insertByDeadline t ts ↔ u = t ∨ u ∈ ts := by
  rw [(insertByDeadline_perm t ts).mem_iff, List.mem_cons]

theorem mem_byDeadline : t ∈ byDeadline ts ↔ t ∈ ts :=
  (byDeadline_perm ts).mem_iff

/-- The deadlines increase. -/
abbrev Ordered (ts : List Task) : Prop :=
  ts.Pairwise fun t u => t.deadline ≤ u.deadline

theorem Ordered.insertByDeadline (h : Ordered ts) (t : Task) :
    Ordered (insertByDeadline t ts) := by
  induction ts with
  | nil => exact List.pairwise_singleton _ _
  | cons u us ih =>
      obtain ⟨hu, hus⟩ := List.pairwise_cons.1 h
      unfold Punctual.insertByDeadline
      split
      · next hle =>
          refine List.pairwise_cons.2 ⟨?_, h⟩
          intro v hv
          rcases List.mem_cons.1 hv with rfl | hmem
          · exact hle
          · exact Int.le_trans hle (hu v hmem)
      · next hlt =>
          refine List.pairwise_cons.2 ⟨?_, ih hus⟩
          intro v hv
          rcases mem_insertByDeadline.1 hv with rfl | hmem
          · exact Int.le_of_lt (Int.not_le.1 hlt)
          · exact hu v hmem

theorem pairwise_byDeadline (ts : List Task) : Ordered (byDeadline ts) := by
  induction ts with
  | nil => exact .nil
  | cons t ts ih => exact ih.insertByDeadline t

/-- A task with the earliest deadline goes to the front. -/
theorem insertByDeadline_of_le (h : ∀ u ∈ ts, t.deadline ≤ u.deadline) :
    insertByDeadline t ts = t :: ts := by
  cases ts with
  | nil => rfl
  | cons u us => exact if_pos (h u List.mem_cons_self)

theorem insertByDeadline_of_lt (h : u.deadline < t.deadline) :
    insertByDeadline t (u :: us) = u :: insertByDeadline t us :=
  if_neg (Int.not_le.2 h)

/-- Leaving out tasks before or after putting one in makes no difference. -/
theorem filter_insertByDeadline (p : Task → Bool) (h : Ordered ts) :
    (insertByDeadline t ts).filter p =
      if p t then insertByDeadline t (ts.filter p) else ts.filter p := by
  induction ts with
  | nil => simp [insertByDeadline, List.filter_cons]
  | cons u us ih =>
      obtain ⟨hu, hus⟩ := List.pairwise_cons.1 h
      by_cases hle : t.deadline ≤ u.deadline
      · have hleast : ∀ v ∈ u :: us, t.deadline ≤ v.deadline := by
          intro v hv
          rcases List.mem_cons.1 hv with rfl | hmem
          · exact hle
          · exact Int.le_trans hle (hu v hmem)
        have hfirst : ∀ v ∈ (u :: us).filter p, t.deadline ≤ v.deadline :=
          fun v hv => hleast v (List.mem_filter.1 hv).1
        rw [insertByDeadline_of_le hleast, insertByDeadline_of_le hfirst, List.filter_cons]
      · have hlt := Int.not_le.1 hle
        rw [insertByDeadline_of_lt hlt, List.filter_cons, ih hus]
        by_cases hpu : p u
        · by_cases hpt : p t <;> simp [hpu, hpt, insertByDeadline_of_lt hlt]
        · simp [hpu]

/-- Picking tasks and ordering them can be exchanged. -/
theorem filter_byDeadline (p : Task → Bool) (ts : List Task) :
    (byDeadline ts).filter p = byDeadline (ts.filter p) := by
  induction ts with
  | nil => rfl
  | cons t ts ih =>
      rw [byDeadline, filter_insertByDeadline p (pairwise_byDeadline ts), ih, List.filter_cons]
      by_cases hp : p t <;> simp [hp, byDeadline]

/-- Tasks that are in order stay as they are. -/
theorem byDeadline_of_ordered (h : Ordered ts) : byDeadline ts = ts := by
  induction ts with
  | nil => rfl
  | cons t ts ih =>
      obtain ⟨ht, hts⟩ := List.pairwise_cons.1 h
      rw [byDeadline, ih hts, insertByDeadline_of_le ht]

/-- The second list has the tasks of the first, earliest deadline first, and tasks with the same
deadline in the order of the first list. -/
structure StablyOrdered (ts us : List Task) : Prop where
  perm : us.Perm ts
  ordered : Ordered us
  stable : ∀ deadline, us.filter (·.deadline = deadline) = ts.filter (·.deadline = deadline)

theorem stablyOrdered_byDeadline (ts : List Task) : StablyOrdered ts (byDeadline ts) := by
  refine ⟨byDeadline_perm ts, pairwise_byDeadline ts, fun deadline => ?_⟩
  have hsame : Ordered (ts.filter (·.deadline = deadline)) := by
    refine List.pairwise_filter.2 (List.pairwise_of_forall fun t u ht hu => ?_)
    exact Int.le_of_eq ((of_decide_eq_true ht).trans (of_decide_eq_true hu).symm)
  rw [filter_byDeadline, byDeadline_of_ordered hsame]

/-! ## The first candidate -/

/-- Among the tasks that satisfy `p`, the task has the earliest deadline, and it is the first of
them with this deadline. -/
structure FirstDue (p : Task → Bool) (ts : List Task) (t : Task) : Prop where
  holds : p t
  exists_split : ∃ before after, ts = before ++ t :: after ∧
    (∀ u ∈ before, p u → t.deadline < u.deadline) ∧
      ∀ u ∈ after, p u → t.deadline ≤ u.deadline

/-- The task at the head of the order is the first one with the earliest deadline. -/
theorem split_of_byDeadline (h : byDeadline ts = t :: us) :
    ∃ before after, ts = before ++ t :: after ∧
      (∀ u ∈ before, t.deadline < u.deadline) ∧ ∀ u ∈ after, t.deadline ≤ u.deadline := by
  induction ts generalizing us with
  | nil => simp [byDeadline] at h
  | cons v vs ih =>
      have hleast : ∀ u ∈ vs, t.deadline ≤ u.deadline := by
        intro u hu
        have hordered := pairwise_byDeadline (v :: vs)
        rw [h] at hordered
        have hmem : u ∈ t :: us := by
          rw [← h]
          exact mem_byDeadline.2 (List.mem_cons_of_mem _ hu)
        rcases List.mem_cons.1 hmem with rfl | htail
        · exact Int.le_refl _
        · exact (List.pairwise_cons.1 hordered).1 u htail
      rw [byDeadline] at h
      cases hvs : byDeadline vs with
      | nil =>
          rw [hvs] at h
          obtain ⟨rfl, -⟩ := List.cons.inj h
          exact ⟨[], vs, rfl, by simp, hleast⟩
      | cons x xs =>
          rw [hvs, insertByDeadline] at h
          split at h
          · obtain ⟨rfl, -⟩ := List.cons.inj h
            exact ⟨[], vs, rfl, by simp, hleast⟩
          · next hlt =>
              obtain ⟨rfl, -⟩ := List.cons.inj h
              obtain ⟨before, after, rfl, hbefore, hafter⟩ := ih hvs
              refine ⟨v :: before, after, rfl, ?_, hafter⟩
              intro u hu
              rcases List.mem_cons.1 hu with rfl | htail
              · exact Int.not_le.1 hlt
              · exact hbefore u htail

/-- The first task in the order that satisfies `p` is the one that is due first. -/
theorem FirstDue.of_byDeadline {p : Task → Bool} {earlier later : List Task}
    (h : byDeadline ts = earlier ++ t :: later) (ht : p t) (hearlier : ∀ u ∈ earlier, ¬ p u) :
    FirstDue p ts t := by
  have hhead : byDeadline (ts.filter p) = t :: later.filter p := by
    have hnone : earlier.filter p = [] := List.filter_eq_nil_iff.2 hearlier
    rw [← filter_byDeadline, h, List.filter_append, List.filter_cons, hnone]
    simp [ht]
  obtain ⟨before, after, hsplit, hbefore, hafter⟩ := split_of_byDeadline hhead
  obtain ⟨ts₁, ts₂, rfl, rfl, hts₂⟩ := List.filter_eq_append_iff.1 hsplit
  obtain ⟨ts₃, ts₄, rfl, hts₃, -, rfl⟩ := List.filter_eq_cons_iff.1 hts₂
  refine ⟨ht, ts₁ ++ ts₃, ts₄, by simp, ?_, ?_⟩
  · intro u hu hpu
    rcases List.mem_append.1 hu with hleft | hright
    · exact hbefore u (List.mem_filter.2 ⟨hleft, hpu⟩)
    · exact absurd hpu (hts₃ u hright)
  · intro u hu hpu
    exact hafter u (List.mem_filter.2 ⟨hu, hpu⟩)

/-! ## Positions -/

namespace Schedule

/-- The first position is that of the first candidate. -/
theorem positionsFrom_eq_cons {now : Time} {unit : Option String} {k i : Nat} {is : List Nat}
    (h : positionsFrom now unit k ts = i :: is) :
    ∃ earlier t later, ts = earlier ++ t :: later ∧ i = k + earlier.length ∧
      isCandidate now unit t ∧ ∀ u ∈ earlier, ¬ isCandidate now unit u := by
  induction ts generalizing k with
  | nil => simp [positionsFrom] at h
  | cons t ts ih =>
      unfold positionsFrom at h
      split at h
      · next ht =>
          obtain ⟨rfl, -⟩ := List.cons.inj h
          exact ⟨[], t, ts, rfl, rfl, ht, by simp⟩
      · next ht =>
          obtain ⟨earlier, v, later, rfl, rfl, hv, hearlier⟩ := ih h
          refine ⟨t :: earlier, v, later, rfl, by simp; omega, hv, ?_⟩
          intro u hu
          rcases List.mem_cons.1 hu with rfl | htail
          · exact ht
          · exact hearlier u htail

theorem positionsFrom_of_split {now : Time} {unit : Option String} {earlier : List Task}
    (ht : isCandidate now unit t) (hearlier : ∀ u ∈ earlier, ¬ isCandidate now unit u)
    (later : List Task) (k : Nat) :
    ∃ is, positionsFrom now unit k (earlier ++ t :: later) = (k + earlier.length) :: is := by
  induction earlier generalizing k with
  | nil => exact ⟨_, if_pos ht⟩
  | cons u us ih =>
      obtain ⟨is, hrest⟩ := ih (fun v hv => hearlier v (List.mem_cons_of_mem _ hv)) (k + 1)
      have hskip : positionsFrom now unit k (u :: us ++ t :: later) =
          positionsFrom now unit (k + 1) (us ++ t :: later) :=
        if_neg (hearlier u List.mem_cons_self)
      rw [hskip, hrest, List.length_cons]
      exact ⟨is, by rw [Nat.add_assoc, Nat.add_comm 1]⟩

theorem positionsFrom_eq_nil_iff {now : Time} {unit : Option String} {k : Nat} :
    positionsFrom now unit k ts = [] ↔ ∀ t ∈ ts, ¬ isCandidate now unit t := by
  induction ts generalizing k with
  | nil => simp [positionsFrom]
  | cons t ts ih =>
      unfold positionsFrom
      split
      · next ht => simp [ht]
      · next ht => simp [ih, ht]

end Schedule

end Punctual
