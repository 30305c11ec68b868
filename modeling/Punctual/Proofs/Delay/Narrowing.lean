import Punctual.Check.Delay

/-!
# Bounds narrowed by answers

Both phases of the search for the smallest feasible deadline do the same thing at each step: they ask
about a deadline strictly between the bounds, and the answer moves one of them there. `Narrows` is
the relation between the bounds before and after a list of such answers. What the bounds certify,
and in which order infeasible deadlines turn up, follows from it alone, whatever deadlines a search
picks and whatever answers it gets.
-/

namespace Punctual

/-- Deadlines that were asked about, each with the answer whether it is feasible. -/
abbrev Answers := List (Time × Bool)

/-- The deadlines that were answered as infeasible, in order. -/
def Answers.infeasible (asked : Answers) : List Time :=
  (asked.filter fun p => !p.2).map Prod.fst

namespace DelayBounds

/-- The bounds after an answer about a deadline. -/
def answered (b : DelayBounds) (t : Time) (feasible : Bool) : DelayBounds :=
  if feasible then { b with upper := some t } else { b with lower := t }

@[simp] theorem answered_deadline (b : DelayBounds) (t : Time) (feasible : Bool) :
    (b.answered t feasible).deadline = b.deadline := by
  cases feasible <;> rfl

/-- The deadline lies strictly between the bounds and within a horizon. -/
def Bracket (b : DelayBounds) (horizonEnd t : Time) : Prop :=
  b.lower < t ∧ t ≤ horizonEnd ∧ ∀ u ∈ b.upper, t < u

/-- The bounds are in order and lie within a horizon. -/
def Within (b : DelayBounds) (horizonEnd : Time) : Prop :=
  b.lower ≤ horizonEnd ∧ ∀ u ∈ b.upper, b.lower < u ∧ u ≤ horizonEnd

theorem Within.answered {b : DelayBounds} {horizonEnd t : Time}
    (hb : b.Within horizonEnd) (ht : b.Bracket horizonEnd t) (feasible : Bool) :
    (b.answered t feasible).Within horizonEnd := by
  obtain ⟨hlower, hhorizon, hupper⟩ := ht
  cases feasible with
  | true => exact ⟨hb.1, by rintro u ⟨⟩; exact ⟨hlower, hhorizon⟩⟩
  | false => exact ⟨hhorizon, fun u hu => ⟨hupper u hu, (hb.2 u hu).2⟩⟩

end DelayBounds

/-- Answers about deadlines between the bounds lead from one pair of bounds to another. -/
inductive Narrows (horizonEnd : Time) : DelayBounds → Answers → DelayBounds → Prop
  | nil (b : DelayBounds) : Narrows horizonEnd b [] b
  | cons {b b' : DelayBounds} {t : Time} {feasible : Bool} {asked : Answers}
      (hbetween : b.Bracket horizonEnd t)
      (hrest : Narrows horizonEnd (b.answered t feasible) asked b') :
      Narrows horizonEnd b ((t, feasible) :: asked) b'

namespace Narrows

variable {horizonEnd : Time} {b b' b'' : DelayBounds} {asked more : Answers}

theorem append
    (h : Narrows horizonEnd b asked b') (h' : Narrows horizonEnd b' more b'') :
    Narrows horizonEnd b (asked ++ more) b'' := by
  induction h with
  | nil => exact h'
  | cons hbetween _ ih => exact .cons hbetween (ih h')

/-- One more deadline between the bounds is answered. -/
theorem concat {t : Time} (h : Narrows horizonEnd b asked b') (ht : b'.Bracket horizonEnd t)
    (feasible : Bool) :
    Narrows horizonEnd b (asked ++ [(t, feasible)]) (b'.answered t feasible) :=
  h.append (.cons ht (.nil _))

theorem deadline_eq (h : Narrows horizonEnd b asked b') : b'.deadline = b.deadline := by
  induction h with
  | nil => rfl
  | cons _ _ ih => simpa using ih

theorem within (h : Narrows horizonEnd b asked b') (hb : b.Within horizonEnd) :
    b'.Within horizonEnd := by
  induction h with
  | nil => exact hb
  | cons hbetween _ ih => exact ih (hb.answered hbetween _)

theorem lower_le (h : Narrows horizonEnd b asked b') : b.lower ≤ b'.lower := by
  induction h with
  | nil => exact Int.le_refl _
  | @cons b _ t feasible _ hbetween _ ih =>
      cases feasible with
      | true => exact ih
      | false => exact Int.le_trans (Int.le_of_lt hbetween.1) ih

/-- The lower bound is the first one, or was answered as infeasible. -/
theorem lower_eq_or_mem (h : Narrows horizonEnd b asked b') :
    b'.lower = b.lower ∨ (b'.lower, false) ∈ asked := by
  induction h with
  | nil => exact .inl rfl
  | @cons b b' t feasible _ _ _ ih =>
      cases feasible with
      | true => exact ih.imp_right fun hmem => List.mem_cons_of_mem _ hmem
      | false =>
          right
          rcases ih with heq | hmem
          · rw [heq]
            exact List.mem_cons_self
          · exact List.mem_cons_of_mem _ hmem

/-- From an infeasible deadline on, the lower bound was always answered as infeasible. -/
theorem lower_mem {deadline : Time} (h : Narrows horizonEnd (.ofDeadline deadline) asked b) :
    (b.lower, false) ∈ (deadline, false) :: asked := by
  rcases h.lower_eq_or_mem with heq | hmem
  · rw [heq]
    exact List.mem_cons_self
  · exact List.mem_cons_of_mem _ hmem

/-- The upper bound is the first one, or was answered as feasible. -/
theorem upper_eq_or_mem (h : Narrows horizonEnd b asked b') :
    b'.upper = b.upper ∨ ∃ u, b'.upper = some u ∧ (u, true) ∈ asked := by
  induction h with
  | nil => exact .inl rfl
  | @cons b b' t feasible _ _ _ ih =>
      rcases ih with heq | ⟨u, hu, hmem⟩
      · cases feasible with
        | true => exact .inr ⟨t, heq, List.mem_cons_self⟩
        | false => exact .inl heq
      · exact .inr ⟨u, hu, List.mem_cons_of_mem _ hmem⟩

/-- Every deadline asked about lies between the first bounds. -/
theorem bracket_of_mem (h : Narrows horizonEnd b asked b')
    {t : Time} {feasible : Bool} (hmem : (t, feasible) ∈ asked) : b.Bracket horizonEnd t := by
  induction h with
  | nil => simp at hmem
  | @cons b b' t₀ a _ hbetween _ ih =>
      rcases List.mem_cons.1 hmem with heq | htail
      · obtain ⟨rfl, -⟩ := Prod.mk.inj heq
        exact hbetween
      · obtain ⟨hlower, hhorizon, hupper⟩ := ih htail
        cases a with
        | true =>
            have hlt : t < t₀ := hupper t₀ rfl
            exact ⟨hlower, hhorizon, fun u hu => Int.lt_trans hlt (hbetween.2.2 u hu)⟩
        | false => exact ⟨Int.lt_trans hbetween.1 hlower, hhorizon, hupper⟩

/-- Every deadline asked about lies after the first lower bound and within the horizon. -/
theorem lt_and_le_of_mem (h : Narrows horizonEnd b asked b')
    {t : Time} {feasible : Bool} (hmem : (t, feasible) ∈ asked) :
    b.lower < t ∧ t ≤ horizonEnd :=
  (h.bracket_of_mem hmem).imp_right And.left

/-- No deadline is asked about twice, since every answer moves one of the bounds to its deadline. -/
theorem nodup (h : Narrows horizonEnd b asked b') : (asked.map Prod.fst).Nodup := by
  induction h with
  | nil => exact .nil
  | @cons b b' t feasible asked _ hrest ih =>
      refine List.nodup_cons.2 ⟨fun hmem => ?_, ih⟩
      obtain ⟨⟨t', feasible'⟩, hasked, rfl⟩ := List.mem_map.1 hmem
      obtain ⟨hlower, -, hupper⟩ := hrest.bracket_of_mem hasked
      cases feasible with
      | true => exact Int.lt_irrefl _ (hupper t' rfl)
      | false => exact Int.lt_irrefl _ hlower

/-- The first lower bound is not asked about again. -/
theorem nodup_cons (h : Narrows horizonEnd b asked b') :
    (b.lower :: asked.map Prod.fst).Nodup := by
  refine List.nodup_cons.2 ⟨fun hmem => ?_, h.nodup⟩
  obtain ⟨⟨t, feasible⟩, hasked, rfl⟩ := List.mem_map.1 hmem
  exact Int.lt_irrefl _ (h.bracket_of_mem hasked).1

/-- No deadline answered as infeasible lies after the last lower bound. -/
theorem le_lower_of_mem (h : Narrows horizonEnd b asked b')
    {t : Time} (hmem : (t, false) ∈ asked) : t ≤ b'.lower := by
  induction h with
  | nil => simp at hmem
  | cons _ hrest ih =>
      rcases List.mem_cons.1 hmem with heq | htail
      · obtain ⟨rfl, rfl⟩ := Prod.mk.inj heq
        exact hrest.lower_le
      · exact ih htail

/-- Deadlines turn out to be infeasible in increasing order, from the first lower bound on. -/
theorem pairwise_infeasible (h : Narrows horizonEnd b asked b') :
    (b.lower :: asked.infeasible).Pairwise (· < ·) := by
  induction h with
  | nil => simp [Answers.infeasible]
  | @cons b _ t feasible asked hbetween hrest ih =>
      cases feasible with
      | true => exact ih
      | false =>
          change (b.lower :: t :: asked.infeasible).Pairwise (· < ·)
          refine List.pairwise_cons.2 ⟨?_, ih⟩
          intro u hu
          rcases List.mem_cons.1 hu with rfl | htail
          · exact hbetween.1
          · exact Int.lt_trans hbetween.1 ((List.pairwise_cons.1 ih).1 u htail)

/-- The last deadline in this order is the last lower bound. -/
theorem getLast?_infeasible (h : Narrows horizonEnd b asked b') :
    (b.lower :: asked.infeasible).getLast? = some b'.lower := by
  induction h with
  | nil => rfl
  | @cons b _ t feasible asked _ _ ih =>
      cases feasible with
      | true => exact ih
      | false =>
          change (b.lower :: t :: asked.infeasible).getLast? = _
          rw [List.getLast?_cons_cons]
          exact ih

end Narrows

end Punctual
