import Punctual.Proofs.Delay.Narrowing
import Punctual.Proofs.Ending

/-!
# Courses of the search for a deadline

A probe may answer anything and may break off. `Probed` lists the answers of probes made one after
another; `Doubling` and `Halving` say which deadlines the two phases ask about, given the answers so
far, and where they end. Together they describe every run of a phase, also one that breaks off in the
middle (`doublingFrom_course`, `halveGap_course`), and only runs of it (`Doubling.ends`,
`Halving.ends`). Both phases only ever narrow the bounds (`Doubling.narrows`, `Halving.narrows`).
-/

namespace Punctual

/-! ## Deadlines of the doubling phase -/

section Relaxed

variable {start horizonEnd : Time} {k : Nat}

theorem relaxedDeadline_le : relaxedDeadline start horizonEnd k ≤ horizonEnd := by
  unfold relaxedDeadline
  split
  · split
    · exact Int.min_le_right _ _
    · exact Int.le_refl _
  · exact Int.le_refl _

theorem pow_two_pos (k : Nat) : (0 : Int) < (Nat.pow 2 k : Nat) :=
  Int.natCast_pos.2 (Nat.pow_pos (by decide))

/-- A deadline before the end of the horizon lies exactly `2 ^ k` steps after the start. -/
theorem relaxedDeadline_of_ne (h : relaxedDeadline start horizonEnd k ≠ horizonEnd) :
    relaxedDeadline start horizonEnd k = start + (Nat.pow 2 k : Nat) := by
  unfold relaxedDeadline Time.sum? at h ⊢
  grind

theorem lt_relaxedDeadline (h : start < horizonEnd) :
    start < relaxedDeadline start horizonEnd k := by
  by_cases hend : relaxedDeadline start horizonEnd k = horizonEnd
  · rw [hend]
    exact h
  · rw [relaxedDeadline_of_ne hend]
    exact Int.lt_add_of_pos_right _ (pow_two_pos k)

theorem relaxedDeadline_lt_succ (h : relaxedDeadline start horizonEnd k ≠ horizonEnd) :
    relaxedDeadline start horizonEnd k < relaxedDeadline start horizonEnd (k + 1) := by
  by_cases hend : relaxedDeadline start horizonEnd (k + 1) = horizonEnd
  · rw [hend]
    exact Int.lt_iff_le_and_ne.2 ⟨relaxedDeadline_le, h⟩
  · rw [relaxedDeadline_of_ne h, relaxedDeadline_of_ne hend]
    have hpos := pow_two_pos k
    have hdouble : ((Nat.pow 2 (k + 1) : Nat) : Int) = (Nat.pow 2 k : Nat) * 2 := by
      simp [Nat.pow_succ]
    exact Int.add_lt_add_left (by omega) start

end Relaxed

/-! ## Courses -/

section Course

variable {ε σ : Type}

/-- Probes made one after another give these answers. -/
inductive Probed (probe : Time → Action ε σ Bool) : σ → Answers → σ → Prop
  | nil (s : σ) : Probed probe s [] s
  | cons {s m s' : σ} {t : Time} {feasible : Bool} {asked : Answers}
      (hprobe : Ends (probe t) s (.ok feasible) m) (hrest : Probed probe m asked s') :
      Probed probe s ((t, feasible) :: asked) s'

theorem Probed.append {probe : Time → Action ε σ Bool} {s m s' : σ} {asked more : Answers}
    (h : Probed probe s asked m) (h' : Probed probe m more s') :
    Probed probe s (asked ++ more) s' := by
  induction h with
  | nil => exact h'
  | cons hprobe _ ih => exact .cons hprobe (ih h')

/-- Where a search ends. -/
inductive SearchEnd
  /-- It gives bounds. -/
  | found (b : DelayBounds)
  /-- The probe of a deadline breaks off. -/
  | broken (b : DelayBounds) (t : Time)
  /-- The gap between the bounds is out of range. -/
  | wide (b : DelayBounds) (f : Fault)

namespace SearchEnd

/-- The bounds at the end. -/
def bounds : SearchEnd → DelayBounds
  | found b | broken b _ | wide b _ => b

/-- How a search ends in the state that its answered probes left. -/
def Concludes (probe : Time → Action ε σ Bool) :
    SearchEnd → σ → Except (Stop ε) DelayBounds → σ → Prop
  | found b, m, r, s' => r = .ok b ∧ s' = m
  | broken _ t, m, r, s' => ∃ e, r = .error e ∧ Ends (probe t) m (.error e) s'
  | wide _ f, m, r, s' => r = .error (.fault f) ∧ s' = m

/-- Where the doubling phase ends: with a feasible deadline or the end of the horizon, or in front of a
deadline after its bounds. -/
def Opened (horizonEnd : Time) : SearchEnd → Prop
  | found b => (∃ u, b.upper = some u) ∨ b.upper = none ∧ b.lower = horizonEnd
  | broken b t => b.Bracket horizonEnd t
  | wide _ _ => False

/-- Where the halving phase ends: with adjacent bounds, in front of a deadline between its bounds, or
with bounds whose gap is out of range. -/
def Closed (horizonEnd : Time) : SearchEnd → Prop
  | found b => b.upper = some (b.lower + 1)
  | broken b t => b.Bracket horizonEnd t
  | wide b f => ∃ u, b.upper = some u ∧ Time.sub u b.lower = .error f

end SearchEnd

/-- The deadlines that the doubling phase asks about from its `k`-th step on. -/
inductive Doubling (start horizonEnd : Time) : Nat → DelayBounds → Answers → SearchEnd → Prop
  | feasible (k : Nat) (b : DelayBounds) :
      Doubling start horizonEnd k b [(relaxedDeadline start horizonEnd k, true)]
        (.found (b.answered (relaxedDeadline start horizonEnd k) true))
  | atHorizon (k : Nat) (b : DelayBounds)
      (hend : relaxedDeadline start horizonEnd k = horizonEnd) :
      Doubling start horizonEnd k b [(relaxedDeadline start horizonEnd k, false)]
        (.found (b.answered (relaxedDeadline start horizonEnd k) false))
  | infeasible {k : Nat} {b : DelayBounds} {asked : Answers} {e : SearchEnd}
      (hend : relaxedDeadline start horizonEnd k ≠ horizonEnd)
      (hrest : Doubling start horizonEnd (k + 1)
        (b.answered (relaxedDeadline start horizonEnd k) false) asked e) :
      Doubling start horizonEnd k b ((relaxedDeadline start horizonEnd k, false) :: asked) e
  | broken (k : Nat) (b : DelayBounds) :
      Doubling start horizonEnd k b [] (.broken b (relaxedDeadline start horizonEnd k))

/-- The deadlines that the halving phase asks about. -/
inductive Halving (deadline : Time) : Time → Time → Answers → SearchEnd → Prop
  | adjacent {lower upper gap : Time} (hgap : Time.sub upper lower = .ok gap)
      (hnarrow : gap < 2) :
      Halving deadline lower upper [] (.found ⟨deadline, lower, some upper⟩)
  | feasible {lower upper gap : Time} {asked : Answers} {e : SearchEnd}
      (hgap : Time.sub upper lower = .ok gap) (hwide : ¬ gap < 2)
      (hrest : Halving deadline lower (lower + gap / 2) asked e) :
      Halving deadline lower upper ((lower + gap / 2, true) :: asked) e
  | infeasible {lower upper gap : Time} {asked : Answers} {e : SearchEnd}
      (hgap : Time.sub upper lower = .ok gap) (hwide : ¬ gap < 2)
      (hrest : Halving deadline (lower + gap / 2) upper asked e) :
      Halving deadline lower upper ((lower + gap / 2, false) :: asked) e
  | broken {lower upper gap : Time} (hgap : Time.sub upper lower = .ok gap)
      (hwide : ¬ gap < 2) :
      Halving deadline lower upper []
        (.broken ⟨deadline, lower, some upper⟩ (lower + gap / 2))
  | wide {lower upper : Time} {f : Fault} (hgap : Time.sub upper lower = .error f) :
      Halving deadline lower upper [] (.wide ⟨deadline, lower, some upper⟩ f)

variable {probe : Time → Action ε σ Bool} {s s' : σ} {r : Except (Stop ε) DelayBounds}

theorem doublingFrom_course {start horizonEnd : Time} {k : Nat} {b : DelayBounds}
    (h : Ends (doublingFrom probe start horizonEnd k b) s r s') :
    ∃ asked e m, Doubling start horizonEnd k b asked e ∧ Probed probe s asked m ∧
      e.Concludes probe m r s' := by
  fun_induction doublingFrom probe start horizonEnd k b generalizing s
  case case1 k b t ih =>
    rcases ends_bind.1 h with ⟨feasible, m, hprobe, hnext⟩ | ⟨e, rfl, hprobe⟩
    · cases feasible with
      | true => exact ⟨_, _, m, .feasible k b, .cons hprobe (.nil m), ends_pure.1 hnext⟩
      | false =>
          simp only [Bool.false_eq_true, if_false] at hnext
          by_cases hend : relaxedDeadline start horizonEnd k = horizonEnd
          · rw [dif_pos hend] at hnext
            exact ⟨_, _, m, .atHorizon k b hend, .cons hprobe (.nil m), ends_pure.1 hnext⟩
          · rw [dif_neg hend] at hnext
            obtain ⟨asked, e, m', hcourse, hprobed, hconcludes⟩ := ih hend hnext
            exact ⟨_, e, m', .infeasible hend hcourse, .cons hprobe hprobed, hconcludes⟩
    · exact ⟨[], _, s, .broken k b, .nil s, e, rfl, hprobe⟩

theorem halveGap_course {deadline lower upper : Time}
    (h : Ends (halveGap probe deadline lower upper) s r s') :
    ∃ asked e m, Halving deadline lower upper asked e ∧ Probed probe s asked m ∧
      e.Concludes probe m r s' := by
  fun_induction halveGap probe deadline lower upper generalizing s with
  | case1 lower upper f hgap =>
      exact ⟨[], _, s, .wide hgap, .nil s, ends_throw.1 h⟩
  | case2 lower upper gap hgap hnarrow =>
      exact ⟨[], _, s, .adjacent hgap hnarrow, .nil s, ends_pure.1 h⟩
  | case3 lower upper gap hgap hwide ihlower ihupper =>
      rcases ends_bind.1 h with ⟨feasible, m, hprobe, hnext⟩ | ⟨e, rfl, hprobe⟩
      · cases feasible with
        | true =>
            obtain ⟨asked, e, m', hcourse, hprobed, hconcludes⟩ := ihlower hnext
            exact ⟨_, e, m', .feasible hgap hwide hcourse, .cons hprobe hprobed, hconcludes⟩
        | false =>
            obtain ⟨asked, e, m', hcourse, hprobed, hconcludes⟩ := ihupper hnext
            exact ⟨_, e, m', .infeasible hgap hwide hcourse, .cons hprobe hprobed, hconcludes⟩
      · exact ⟨[], _, s, .broken hgap hwide, .nil s, e, rfl, hprobe⟩

/-! ### Runs with a given course -/

/-- One step of the doubling phase. -/
theorem doublingFrom_eq (start horizonEnd : Time) (k : Nat) (b : DelayBounds) :
    doublingFrom probe start horizonEnd k b =
      probe (relaxedDeadline start horizonEnd k) >>= fun feasible =>
        if feasible then pure (b.answered (relaxedDeadline start horizonEnd k) true)
        else if relaxedDeadline start horizonEnd k = horizonEnd then
          pure (b.answered (relaxedDeadline start horizonEnd k) false)
        else doublingFrom probe start horizonEnd (k + 1)
          (b.answered (relaxedDeadline start horizonEnd k) false) := by
  rw [doublingFrom]
  rfl

theorem halveGap_of_error {deadline lower upper : Time} {f : Fault}
    (hgap : Time.sub upper lower = .error f) :
    halveGap probe deadline lower upper = throw (.fault f) := by
  rw [halveGap]
  split
  · next f' hgap' =>
      obtain rfl := Except.error.inj (hgap.symm.trans hgap')
      rfl
  · next gap hgap' => exact absurd (hgap.symm.trans hgap') (by simp)

theorem halveGap_of_narrow {deadline lower upper gap : Time}
    (hgap : Time.sub upper lower = .ok gap) (hnarrow : gap < 2) :
    halveGap probe deadline lower upper = pure ⟨deadline, lower, some upper⟩ := by
  rw [halveGap]
  split
  · next f hgap' => exact absurd (hgap.symm.trans hgap') (by simp)
  · next gap' hgap' =>
      obtain rfl := Except.ok.inj (hgap.symm.trans hgap')
      exact dif_pos hnarrow

theorem halveGap_of_wide {deadline lower upper gap : Time}
    (hgap : Time.sub upper lower = .ok gap) (hwide : ¬ gap < 2) :
    halveGap probe deadline lower upper = probe (lower + gap / 2) >>= fun feasible =>
      if feasible then halveGap probe deadline lower (lower + gap / 2)
      else halveGap probe deadline (lower + gap / 2) upper := by
  rw [halveGap]
  split
  · next f hgap' => exact absurd (hgap.symm.trans hgap') (by simp)
  · next gap' hgap' =>
      obtain rfl := Except.ok.inj (hgap.symm.trans hgap')
      exact dif_neg hwide

/-- Probes with the answers of a course run the doubling phase to the end of the course. -/
theorem Doubling.ends {start horizonEnd : Time} {k : Nat} {b : DelayBounds} {asked : Answers}
    {e : SearchEnd} {m : σ} (h : Doubling start horizonEnd k b asked e)
    (hprobed : Probed probe s asked m) (hconcludes : e.Concludes probe m r s') :
    Ends (doublingFrom probe start horizonEnd k b) s r s' := by
  induction h generalizing s with
  | feasible k b =>
      obtain _ | ⟨hprobe, ⟨⟩⟩ := hprobed
      rw [doublingFrom_eq]
      exact ends_bind.2 (.inl ⟨true, _, hprobe, ends_pure.2 hconcludes⟩)
  | atHorizon k b hend =>
      obtain _ | ⟨hprobe, ⟨⟩⟩ := hprobed
      rw [doublingFrom_eq]
      refine ends_bind.2 (.inl ⟨false, _, hprobe, ?_⟩)
      rw [if_neg Bool.false_ne_true, if_pos hend]
      exact ends_pure.2 hconcludes
  | infeasible hend _ ih =>
      obtain _ | ⟨hprobe, hrest⟩ := hprobed
      rw [doublingFrom_eq]
      refine ends_bind.2 (.inl ⟨false, _, hprobe, ?_⟩)
      rw [if_neg Bool.false_ne_true, if_neg hend]
      exact ih hrest hconcludes
  | broken k b =>
      obtain ⟨⟩ := hprobed
      obtain ⟨stop, rfl, hprobe⟩ := hconcludes
      rw [doublingFrom_eq]
      exact ends_bind.2 (.inr ⟨stop, rfl, hprobe⟩)

/-- Probes with the answers of a course run the halving phase to the end of the course. -/
theorem Halving.ends {deadline lower upper : Time} {asked : Answers} {e : SearchEnd} {m : σ}
    (h : Halving deadline lower upper asked e) (hprobed : Probed probe s asked m)
    (hconcludes : e.Concludes probe m r s') :
    Ends (halveGap probe deadline lower upper) s r s' := by
  induction h generalizing s with
  | adjacent hgap hnarrow =>
      obtain ⟨⟩ := hprobed
      rw [halveGap_of_narrow hgap hnarrow]
      exact ends_pure.2 hconcludes
  | feasible hgap hwide _ ih =>
      obtain _ | ⟨hprobe, hrest⟩ := hprobed
      rw [halveGap_of_wide hgap hwide]
      exact ends_bind.2 (.inl ⟨true, _, hprobe, ih hrest hconcludes⟩)
  | infeasible hgap hwide _ ih =>
      obtain _ | ⟨hprobe, hrest⟩ := hprobed
      rw [halveGap_of_wide hgap hwide]
      exact ends_bind.2 (.inl ⟨false, _, hprobe, ih hrest hconcludes⟩)
  | broken hgap hwide =>
      obtain ⟨⟩ := hprobed
      obtain ⟨stop, rfl, hprobe⟩ := hconcludes
      rw [halveGap_of_wide hgap hwide]
      exact ends_bind.2 (.inr ⟨stop, rfl, hprobe⟩)
  | wide hgap =>
      obtain ⟨⟩ := hprobed
      rw [halveGap_of_error hgap]
      exact ends_throw.2 hconcludes

end Course

/-! ## What the phases do to the bounds -/

section Narrow

theorem Doubling.narrows {start horizonEnd : Time} {k : Nat} {b : DelayBounds}
    {asked : Answers} {e : SearchEnd}
    (h : Doubling start horizonEnd k b asked e)
    (hlower : b.lower < relaxedDeadline start horizonEnd k) (hupper : b.upper = none) :
    Narrows horizonEnd b asked e.bounds := by
  have hbracket {k : Nat} {b : DelayBounds}
      (hlower : b.lower < relaxedDeadline start horizonEnd k) (hupper : b.upper = none) :
      b.Bracket horizonEnd (relaxedDeadline start horizonEnd k) :=
    ⟨hlower, relaxedDeadline_le, by simp [hupper]⟩
  induction h with
  | feasible k b => exact .cons (hbracket hlower hupper) (.nil _)
  | atHorizon k b hend => exact .cons (hbracket hlower hupper) (.nil _)
  | infeasible hend _ ih =>
      exact .cons (hbracket hlower hupper) (ih (relaxedDeadline_lt_succ hend) hupper)
  | broken k b => exact .nil b

theorem Doubling.ending {start horizonEnd : Time} {k : Nat} {b : DelayBounds}
    {asked : Answers} {e : SearchEnd}
    (h : Doubling start horizonEnd k b asked e)
    (hlower : b.lower < relaxedDeadline start horizonEnd k) (hupper : b.upper = none) :
    e.Opened horizonEnd := by
  induction h with
  | feasible k b => exact .inl ⟨_, rfl⟩
  | atHorizon k b hend => exact .inr ⟨hupper, hend⟩
  | infeasible hend _ ih => exact ih (relaxedDeadline_lt_succ hend) hupper
  | broken k b => exact ⟨hlower, relaxedDeadline_le, by simp [hupper]⟩

theorem middle_bracket {horizonEnd lower upper gap : Time} (deadline : Time)
    (hgap : Time.sub upper lower = .ok gap) (hwide : ¬ gap < 2) (hupper : upper ≤ horizonEnd) :
    DelayBounds.Bracket ⟨deadline, lower, some upper⟩ horizonEnd (lower + gap / 2) := by
  obtain ⟨rfl, -⟩ := Time.sub_eq_ok_iff.1 hgap
  have hright : lower + (upper - lower) / 2 < upper := by
    dsimp only [Time] at *
    omega
  refine ⟨?_, Int.le_trans (Int.le_of_lt hright) hupper, by rintro u ⟨⟩; exact hright⟩
  dsimp only [Time] at *
  omega

theorem Halving.narrows {horizonEnd deadline lower upper : Time}
    {asked : Answers} {e : SearchEnd}
    (h : Halving deadline lower upper asked e) (hupper : upper ≤ horizonEnd) :
    Narrows horizonEnd ⟨deadline, lower, some upper⟩ asked e.bounds := by
  induction h with
  | adjacent => exact .nil _
  | feasible hgap hwide _ ih =>
      have hmiddle := middle_bracket deadline hgap hwide hupper
      exact .cons hmiddle (ih hmiddle.2.1)
  | infeasible hgap hwide _ ih =>
      exact .cons (middle_bracket deadline hgap hwide hupper) (ih hupper)
  | broken => exact .nil _
  | wide => exact .nil _

theorem Halving.ending {horizonEnd deadline lower upper : Time}
    {asked : Answers} {e : SearchEnd}
    (h : Halving deadline lower upper asked e)
    (hlower : lower < upper) (hupper : upper ≤ horizonEnd) : e.Closed horizonEnd := by
  induction h with
  | @adjacent lower upper gap hgap hnarrow =>
      obtain ⟨rfl, -⟩ := Time.sub_eq_ok_iff.1 hgap
      refine congrArg some ?_
      dsimp only [Time] at *
      omega
  | feasible hgap hwide _ ih =>
      have hmiddle := middle_bracket deadline hgap hwide hupper
      exact ih hmiddle.1 hmiddle.2.1
  | infeasible hgap hwide _ ih =>
      exact ih ((middle_bracket deadline hgap hwide hupper).2.2 _ rfl) hupper
  | broken hgap hwide => exact middle_bracket deadline hgap hwide hupper
  | wide hgap => exact ⟨_, rfl, hgap⟩

end Narrow

/-! ## The phases of a search -/

section Search

variable {ε σ : Type} {probe : Time → Action ε σ Bool} {s s' : σ}
  {r : Except (Stop ε) DelayBounds} {horizonEnd : Time} {b : DelayBounds}

theorem exponentialSearch_course (hb : b.lower ≤ horizonEnd) (hupper : b.upper = none)
    (h : Ends (exponentialSearch probe horizonEnd b) s r s') :
    ∃ (asked : Answers) (e : SearchEnd) (m : σ), Probed probe s asked m ∧ e.Concludes probe m r s' ∧
      Narrows horizonEnd b asked e.bounds ∧ e.Opened horizonEnd := by
  unfold exponentialSearch at h
  split at h
  · next hend =>
      exact ⟨[], .found b, s, .nil s, ends_pure.1 h, .nil b,
        .inr ⟨hupper, Int.le_antisymm hb hend⟩⟩
  · next hend =>
      obtain ⟨asked, e, m, hcourse, hprobed, hconcludes⟩ := doublingFrom_course h
      have hstart := lt_relaxedDeadline (k := 0) (Int.not_le.1 hend)
      exact ⟨asked, e, m, hprobed, hconcludes, hcourse.narrows hstart hupper,
        hcourse.ending hstart hupper⟩

theorem binarySearch_course {u : Time} (hupper : b.upper = some u) (hlower : b.lower < u)
    (hhorizon : u ≤ horizonEnd) (h : Ends (binarySearch probe b) s r s') :
    ∃ (asked : Answers) (e : SearchEnd) (m : σ), Probed probe s asked m ∧ e.Concludes probe m r s' ∧
      Narrows horizonEnd b asked e.bounds ∧ e.Closed horizonEnd := by
  obtain ⟨deadline, lower, upper⟩ := b
  obtain rfl : upper = some u := hupper
  obtain ⟨asked, e, m, hcourse, hprobed, hconcludes⟩ := halveGap_course h
  exact ⟨asked, e, m, hprobed, hconcludes, hcourse.narrows hhorizon,
    hcourse.ending hlower hhorizon⟩

/-- Where a search for the smallest feasible deadline ends, given its last bounds. -/
inductive DelayEnds (probe : Time → Action ε σ Bool) (horizonEnd : Time) (b : DelayBounds)
    (s : σ) : Except (Stop ε) DelayBounds → σ → Prop
  /-- It is known, or no deadline in the horizon is feasible. -/
  | found (hfound : b.upper = some (b.lower + 1) ∨ b.upper = none ∧ b.lower = horizonEnd) :
      DelayEnds probe horizonEnd b s (.ok b) s
  | broken {t : Time} {stop : Stop ε} {s' : σ} (hbracket : b.Bracket horizonEnd t)
      (hprobe : Ends (probe t) s (.error stop) s') :
      DelayEnds probe horizonEnd b s (.error stop) s'
  | wide {u : Time} {f : Fault} (hupper : b.upper = some u)
      (hgap : Time.sub u b.lower = .error f) :
      DelayEnds probe horizonEnd b s (.error (.fault f)) s

/-- Both phases together narrow the bounds, up to the smallest feasible deadline unless they break
off. -/
theorem delaySearch_course (hb : b.lower ≤ horizonEnd) (hupper : b.upper = none)
    (h : Ends (exponentialSearch probe horizonEnd b >>= binarySearch probe) s r s') :
    ∃ asked b' m, Probed probe s asked m ∧ Narrows horizonEnd b asked b' ∧
      DelayEnds probe horizonEnd b' m r s' := by
  rcases ends_bind.1 h with ⟨b₁, m₁, hfirst, hsecond⟩ | ⟨stop, rfl, hfirst⟩
  · obtain ⟨asked, e, m, hprobed, hconcludes, hnarrows, hopened⟩ :=
      exponentialSearch_course hb hupper hfirst
    cases e with
    | found b₂ =>
        obtain ⟨hb₁, rfl⟩ := hconcludes
        obtain rfl := Except.ok.inj hb₁
        rcases hopened with ⟨u, hu⟩ | ⟨hnone, hend⟩
        · have hin := hnarrows.within ⟨hb, by simp [hupper]⟩
          obtain ⟨more, e, m, hmore, hconcludes, hnarrows', hclosed⟩ :=
            binarySearch_course hu (hin.2 u hu).1 (hin.2 u hu).2 hsecond
          refine ⟨_, _, m, hprobed.append hmore, hnarrows.append hnarrows', ?_⟩
          cases e with
          | found b' =>
              obtain ⟨rfl, rfl⟩ := hconcludes
              exact .found (.inl hclosed)
          | broken b' t =>
              obtain ⟨stop, rfl, hprobe⟩ := hconcludes
              exact .broken hclosed hprobe
          | wide b' f =>
              obtain ⟨rfl, rfl⟩ := hconcludes
              obtain ⟨u, hu, hgap⟩ := hclosed
              exact .wide hu hgap
        · unfold binarySearch at hsecond
          rw [hnone] at hsecond
          obtain ⟨rfl, rfl⟩ := ends_pure.1 hsecond
          exact ⟨asked, b₁, _, hprobed, hnarrows, .found (.inr ⟨hnone, hend⟩)⟩
    | broken b₂ t =>
        obtain ⟨stop, hb₁, -⟩ := hconcludes
        simp at hb₁
    | wide b₂ f => exact hopened.elim
  · obtain ⟨asked, e, m, hprobed, hconcludes, hnarrows, hopened⟩ :=
      exponentialSearch_course hb hupper hfirst
    cases e with
    | found b₂ => exact absurd hconcludes.1 (by simp)
    | broken b₂ t =>
        obtain ⟨stop', hstop, hprobe⟩ := hconcludes
        obtain rfl := Except.error.inj hstop
        exact ⟨asked, b₂, m, hprobed, hnarrows, .broken hopened hprobe⟩
    | wide b₂ f => exact hopened.elim

end Search

end Punctual
