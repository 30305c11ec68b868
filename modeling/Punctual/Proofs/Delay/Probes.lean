import Mathlib.Algebra.Order.Ring.Int
import Mathlib.Data.Nat.Log
import Punctual.Proofs.Delay.Search

/-!
# Probes of the search for a deadline

What a search costs is how often it probes. `noted` makes a probe note what it is asked and how it
answers, so that the log of a run lists its probes (`DelaySearch.Runs`).

The doubling phase probes the deadlines 1, 2, 4, … steps after its start, up to the first feasible
one or the end of the horizon (`DoublesUp`). These are at most 64, since `2 ^ 63` is no time, and at
most one more than the binary logarithm of the distance to the end of the horizon, rounded up. The
halving phase probes deadlines strictly between its bounds, at most as many as the binary logarithm
of their gap, rounded up (`Bisects`). Since every answer takes its deadline out of the gap between
the bounds, no deadline is probed twice (`delaySearch_probes`).
-/

namespace Punctual

variable {ε σ : Type}

/-! ## Logs of probes -/

/-- The deadlines that are probed, in order, each with the answer if there is one. -/
abbrev ProbeLog := List (Time × Option Bool)

/-- The deadlines of a log. -/
def ProbeLog.deadlines (log : ProbeLog) : List Time :=
  log.map Prod.fst

@[simp] theorem ProbeLog.deadlines_nil : deadlines [] = [] :=
  rfl

@[simp] theorem ProbeLog.deadlines_append (log more : ProbeLog) :
    deadlines (log ++ more) = log.deadlines ++ more.deadlines :=
  List.map_append

/-- Every probe of a log gives an answer. -/
def ProbeLog.IsAnswered (log : ProbeLog) : Prop :=
  ∀ p ∈ log, p.2.isSome

@[simp] theorem ProbeLog.isAnswered_nil : IsAnswered [] := by
  simp [IsAnswered]

/-- The probe, which also notes what it is asked and how it answers. -/
def noted (probe : Time → Action ε σ Bool) (t : Time) : Action ε (σ × ProbeLog) Bool :=
  fun (s, log) =>
    match probe t s with
    | .ok feasible s' => .ok feasible (s', log ++ [(t, some feasible)])
    | .error stop s' => .error stop (s', log ++ [(t, none)])

/-- A search for a deadline. It may use the state through its probe only. -/
abbrev DelaySearch (ε : Type) :=
  (σ : Type) → (Time → Action ε σ Bool) → Action ε σ DelayBounds

/-- A search, begun in the state `s`, makes the probes of a log and ends in the state `s'`. -/
structure DelaySearch.Runs (search : DelaySearch ε) (probe : Time → Action ε σ Bool) (s : σ)
    (log : ProbeLog) (r : Except (Stop ε) DelayBounds) (s' : σ) : Prop where
  ends : Ends (search σ probe) s r s'
  /-- With a probe that notes what it does, the log is added to what was noted before. -/
  notes : ∀ before,
    Ends (search (σ × ProbeLog) (noted probe)) (s, before) r (s', before ++ log)

/-- The log of probes that gave these answers. -/
def Answers.log (asked : Answers) : ProbeLog :=
  asked.map fun p => (p.1, some p.2)

/-- The log of the last probe, if it broke off. -/
def SearchEnd.log : SearchEnd → ProbeLog
  | broken _ t => [(t, none)]
  | found _ | wide _ _ => []

section Noted

variable {probe : Time → Action ε σ Bool} {s m s' : σ} {t : Time}

theorem ends_noted_ok {feasible : Bool} (h : Ends (probe t) s (.ok feasible) s')
    (before : ProbeLog) :
    Ends (noted probe t) (s, before) (.ok feasible) (s', before ++ [(t, some feasible)]) := by
  have hprobe : probe t s = .ok feasible s' := h
  simp [Ends, noted, hprobe]

theorem ends_noted_error {stop : Stop ε} (h : Ends (probe t) s (.error stop) s')
    (before : ProbeLog) :
    Ends (noted probe t) (s, before) (.error stop) (s', before ++ [(t, none)]) := by
  have hprobe : probe t s = .error stop s' := h
  simp [Ends, noted, hprobe]

theorem Probed.noted {asked : Answers} (h : Probed probe s asked m) (before : ProbeLog) :
    Probed (noted probe) (s, before) asked (m, before ++ asked.log) := by
  induction h generalizing before with
  | nil s =>
      rw [show Answers.log [] = [] from rfl, List.append_nil]
      exact .nil _
  | @cons _ _ _ t feasible _ hprobe _ ih =>
      have hrest := ih (before ++ [(t, some feasible)])
      rw [List.append_assoc] at hrest
      exact .cons (ends_noted_ok hprobe before) hrest

theorem SearchEnd.Concludes.noted {e : SearchEnd} {r : Except (Stop ε) DelayBounds}
    (h : e.Concludes probe m r s') (before : ProbeLog) :
    e.Concludes (noted probe) (m, before) r (s', before ++ e.log) := by
  cases e with
  | found b =>
      obtain ⟨rfl, rfl⟩ := h
      exact ⟨rfl, by rw [SearchEnd.log, List.append_nil]⟩
  | broken b t =>
      obtain ⟨stop, rfl, hprobe⟩ := h
      exact ⟨stop, rfl, ends_noted_error hprobe before⟩
  | wide b f =>
      obtain ⟨rfl, rfl⟩ := h
      exact ⟨rfl, by rw [SearchEnd.log, List.append_nil]⟩

theorem SearchEnd.Concludes.eq_found {e : SearchEnd} {b : DelayBounds}
    (h : e.Concludes probe m (.ok b) s') : e = .found b := by
  cases e with
  | found b' => exact congrArg found (Except.ok.inj h.1).symm
  | broken b' t =>
      obtain ⟨stop, hstop, -⟩ := h
      exact absurd hstop (by simp)
  | wide b' f => exact absurd h.1 (by simp)

/-- A search without a gap out of range gives bounds just if all its probes are answered. -/
theorem SearchEnd.Concludes.isAnswered_iff {e : SearchEnd} {r : Except (Stop ε) DelayBounds}
    (h : e.Concludes probe m r s') (hwide : ∀ b f, e ≠ .wide b f) (asked : Answers) :
    (∃ b, r = .ok b) ↔ (asked.log ++ e.log).IsAnswered := by
  cases e with
  | found b =>
      refine iff_of_true ⟨b, h.1⟩ fun p hp => ?_
      obtain ⟨q, -, rfl⟩ := List.mem_map.1 (List.append_nil _ ▸ hp)
      rfl
  | broken b t =>
      obtain ⟨stop, rfl, -⟩ := h
      refine iff_of_false (by simp) fun hanswered => ?_
      simpa [SearchEnd.log] using hanswered (t, none)
  | wide b f => exact absurd rfl (hwide b f)

end Noted

namespace DelaySearch.Runs

variable {probe : Time → Action ε σ Bool} {s m s' : σ} {log more : ProbeLog}
  {first : DelaySearch ε} {second : DelayBounds → DelaySearch ε}
  {r : Except (Stop ε) DelayBounds}

theorem pure (probe : Time → Action ε σ Bool) (s : σ) (b : DelayBounds) :
    Runs (fun _ _ => Pure.pure b) probe s [] (.ok b) s where
  ends := ends_pure.2 ⟨rfl, rfl⟩
  notes before := ends_pure.2 ⟨rfl, by rw [List.append_nil]⟩

theorem bind {b : DelayBounds} (h : Runs first probe s log (.ok b) m)
    (hmore : Runs (second b) probe m more r s') :
    Runs (fun σ ask => first σ ask >>= fun b => second b σ ask) probe s (log ++ more) r s' where
  ends := ends_bind.2 (.inl ⟨b, m, h.ends, hmore.ends⟩)
  notes before := by
    refine ends_bind.2 (.inl ⟨b, _, h.notes before, ?_⟩)
    rw [← List.append_assoc]
    exact hmore.notes _

theorem bind_error {stop : Stop ε} (h : Runs first probe s log (.error stop) s') :
    Runs (fun σ ask => first σ ask >>= fun b => second b σ ask) probe s log (.error stop) s' where
  ends := ends_bind.2 (.inr ⟨stop, rfl, h.ends⟩)
  notes before := ends_bind.2 (.inr ⟨stop, rfl, h.notes before⟩)

end DelaySearch.Runs

/-- The runs of a search are those with a course of some kind. -/
structure DelaySearch.Follows (search : DelaySearch ε) (Course : Answers → SearchEnd → Prop) :
    Prop where
  course : ∀ {σ : Type} {probe : Time → Action ε σ Bool} {s s' : σ}
    {r : Except (Stop ε) DelayBounds}, Ends (search σ probe) s r s' →
      ∃ asked e m, Course asked e ∧ Probed probe s asked m ∧ e.Concludes probe m r s'
  ends : ∀ {σ : Type} {probe : Time → Action ε σ Bool} {s m s' : σ}
    {r : Except (Stop ε) DelayBounds} {asked : Answers} {e : SearchEnd}, Course asked e →
      Probed probe s asked m → e.Concludes probe m r s' → Ends (search σ probe) s r s'

/-- A probe that notes what it does gives the same answers, so that the course of a search is the one
that it notes. -/
theorem DelaySearch.Follows.exists_runs {search : DelaySearch ε}
    {Course : Answers → SearchEnd → Prop} (h : search.Follows Course)
    (probe : Time → Action ε σ Bool) (s : σ) :
    ∃ asked e m r s', Course asked e ∧ e.Concludes probe m r s' ∧
      search.Runs probe s (asked.log ++ e.log) r s' := by
  obtain ⟨r, s', hends⟩ := exists_ends (search σ probe) s
  obtain ⟨asked, e, m, hcourse, hprobed, hconcludes⟩ := h.course hends
  refine ⟨asked, e, m, r, s', hcourse, hconcludes, hends, fun before => ?_⟩
  rw [← List.append_assoc]
  exact h.ends hcourse (hprobed.noted before) (hconcludes.noted _)

/-! ## The doubling phase -/

section Doubling

variable {start horizonEnd : Time} {k n : Nat} {log : ProbeLog}

theorem fits_pow_two_iff : Time.Fits (2 ^ k) ↔ k < 63 := by
  have hpos : (0 : Int) < 2 ^ k := pow_pos (by decide) k
  unfold Time.Fits Time.lowest Time.highest
  constructor
  · rintro ⟨-, hhigh⟩
    by_contra hk
    have hle : (2 : Int) ^ 63 ≤ 2 ^ k := pow_le_pow_right₀ (by decide) (Nat.not_lt.1 hk)
    omega
  · intro hk
    have hle : (2 : Int) ^ k ≤ 2 ^ 62 := pow_le_pow_right₀ (by decide) (Nat.le_of_lt_succ hk)
    omega

/-- The deadlines of the doubling phase as a formula. -/
theorem relaxedDeadline_eq (start horizonEnd : Time) (k : Nat) :
    relaxedDeadline start horizonEnd k =
      if Time.Fits (2 ^ k) ∧ Time.Fits (start + 2 ^ k) then min (start + 2 ^ k) horizonEnd
      else horizonEnd := by
  have hcast : ((Nat.pow 2 k : Nat) : Int) = 2 ^ k := Nat.cast_pow 2 k
  unfold relaxedDeadline Time.sum?
  rw [hcast]
  by_cases hk : k < 63
  · have hfits := fits_pow_two_iff.2 hk
    by_cases hsum : Time.Fits (start + 2 ^ k)
    · rw [if_pos hk, if_pos hsum, if_pos ⟨hfits, hsum⟩]
    · rw [if_pos hk, if_neg hsum, if_neg fun h => hsum h.2]
  · rw [if_neg hk, if_neg fun h => hk (fits_pow_two_iff.1 h.1)]

/-- After as many doublings as the distance has binary digits, the end of the horizon is reached. -/
theorem relaxedDeadline_clog (start horizonEnd : Time) :
    relaxedDeadline start horizonEnd (Nat.clog 2 (horizonEnd - start).toNat) = horizonEnd := by
  by_contra hbefore
  have hlt := Int.lt_iff_le_and_ne.2 ⟨relaxedDeadline_le, hbefore⟩
  rw [relaxedDeadline_of_ne hbefore] at hlt
  have hle : (horizonEnd - start).toNat ≤ Nat.pow 2 (Nat.clog 2 (horizonEnd - start).toNat) :=
    Nat.le_pow_clog Nat.one_lt_two _
  omega

/-- The log of the doubling phase from its `k`-th step on. -/
inductive Doubled (start horizonEnd : Time) : Nat → ProbeLog → Prop
  /-- An infeasible deadline is the last one only at the end of the horizon. -/
  | last (k : Nat) (answer : Option Bool)
      (hlast : answer = some false → relaxedDeadline start horizonEnd k = horizonEnd) :
      Doubled start horizonEnd k [(relaxedDeadline start horizonEnd k, answer)]
  | next {k : Nat} {log : ProbeLog} (hbefore : relaxedDeadline start horizonEnd k ≠ horizonEnd)
      (hrest : Doubled start horizonEnd (k + 1) log) :
      Doubled start horizonEnd k ((relaxedDeadline start horizonEnd k, some false) :: log)

namespace Doubled

theorem deadlines_eq (h : Doubled start horizonEnd k log) :
    log.deadlines = (List.range' k log.length).map (relaxedDeadline start horizonEnd) := by
  induction h with
  | last => rfl
  | next _ _ ih => exact congrArg (_ :: ·) ih

theorem ne_nil (h : Doubled start horizonEnd k log) : log ≠ [] := by
  cases h <;> exact List.cons_ne_nil _ _

theorem mem_dropLast (h : Doubled start horizonEnd k log) :
    ∀ p ∈ log.dropLast, p.2 = some false ∧ p.1 < horizonEnd := by
  induction h with
  | last => simp
  | next hbefore hrest ih =>
      rw [List.dropLast_cons_of_ne_nil hrest.ne_nil]
      have hlt := Int.lt_iff_le_and_ne.2 ⟨relaxedDeadline_le, hbefore⟩
      exact List.forall_mem_cons.2 ⟨⟨rfl, hlt⟩, ih⟩

theorem getLast?_eq (h : Doubled start horizonEnd k log) :
    ∀ p ∈ log.getLast?, p.2 = some false → p.1 = horizonEnd := by
  induction h with
  | last k answer hlast =>
      rintro p ⟨⟩
      exact hlast
  | next _ hrest ih =>
      obtain ⟨q, log, rfl⟩ := List.exists_cons_of_ne_nil hrest.ne_nil
      rw [List.getLast?_cons_cons]
      exact ih

theorem within (h : Doubled start horizonEnd k log) (hstart : start < horizonEnd) :
    ∀ t ∈ log.deadlines, start < t ∧ t ≤ horizonEnd := by
  rw [h.deadlines_eq]
  intro t ht
  obtain ⟨i, -, rfl⟩ := List.mem_map.1 ht
  exact ⟨lt_relaxedDeadline hstart, relaxedDeadline_le⟩

theorem relaxedDeadline_le_of_mem (h : Doubled start horizonEnd k log) :
    ∀ t ∈ log.deadlines, relaxedDeadline start horizonEnd k ≤ t := by
  induction h with
  | last => exact List.forall_mem_singleton.2 (Int.le_refl _)
  | next hbefore _ ih =>
      refine List.forall_mem_cons.2 ⟨Int.le_refl _, fun t ht => ?_⟩
      exact Int.le_trans (Int.le_of_lt (relaxedDeadline_lt_succ hbefore)) (ih t ht)

theorem increasing (h : Doubled start horizonEnd k log) : log.deadlines.Pairwise (· < ·) := by
  induction h with
  | last => exact List.pairwise_singleton _ _
  | next hbefore hrest ih =>
      refine List.pairwise_cons.2 ⟨fun t ht => ?_, ih⟩
      exact Int.lt_of_lt_of_le (relaxedDeadline_lt_succ hbefore)
        (hrest.relaxedDeadline_le_of_mem t ht)

/-- The phase does not go beyond a step that leads to the end of the horizon. -/
theorem length_le (h : Doubled start horizonEnd k log)
    (hn : relaxedDeadline start horizonEnd n = horizonEnd) (hk : k ≤ n) :
    k + log.length ≤ n + 1 := by
  induction h with
  | last => exact Nat.succ_le_succ hk
  | @next k log hbefore _ ih =>
      have hne : k ≠ n := by
        rintro rfl
        exact hbefore hn
      have hrest := ih (Nat.lt_of_le_of_ne hk hne)
      rw [List.length_cons]
      omega

end Doubled

/-- The log of a doubling phase, described from its start to the end of the horizon. -/
structure DoublesUp (start horizonEnd : Time) (log : ProbeLog) : Prop where
  /-- The `k`-th deadline is `2 ^ k` steps after the start, or the end of the horizon if that comes
  earlier or if the steps or the deadline are out of range. -/
  deadlines_eq : log.deadlines = (List.range log.length).map fun k =>
    if Time.Fits (2 ^ k) ∧ Time.Fits (start + 2 ^ k) then min (start + 2 ^ k) horizonEnd
    else horizonEnd
  /-- Only after an infeasible deadline before the end of the horizon another one is probed. -/
  mem_dropLast : ∀ p ∈ log.dropLast, p.2 = some false ∧ p.1 < horizonEnd
  /-- After an infeasible deadline before the end of the horizon another one is probed. -/
  getLast?_eq : ∀ p ∈ log.getLast?, p.2 = some false → p.1 = horizonEnd
  eq_nil_iff : log = [] ↔ horizonEnd ≤ start
  increasing : log.deadlines.Pairwise (· < ·)
  within : ∀ t ∈ log.deadlines, start < t ∧ t ≤ horizonEnd
  length_le : log.length ≤ 64
  length_le_clog : log.length ≤ Nat.clog 2 (horizonEnd - start).toNat + 1

theorem doublesUp_nil (h : horizonEnd ≤ start) : DoublesUp start horizonEnd [] where
  deadlines_eq := rfl
  mem_dropLast := by simp
  getLast?_eq := by simp
  eq_nil_iff := iff_of_true rfl h
  increasing := .nil
  within := by simp
  length_le := Nat.zero_le _
  length_le_clog := Nat.zero_le _

theorem Doubled.doublesUp (h : Doubled start horizonEnd 0 log) (hstart : start < horizonEnd) :
    DoublesUp start horizonEnd log where
  deadlines_eq := by
    rw [h.deadlines_eq, ← List.range_eq_range']
    exact List.map_congr_left fun k _ => relaxedDeadline_eq start horizonEnd k
  mem_dropLast := h.mem_dropLast
  getLast?_eq := h.getLast?_eq
  eq_nil_iff := iff_of_false h.ne_nil (Int.not_le.2 hstart)
  increasing := h.increasing
  within := h.within hstart
  length_le := by
    have hlength := h.length_le (relaxedDeadline_of_le (Nat.le_refl 63)) (Nat.zero_le 63)
    rwa [Nat.zero_add] at hlength
  length_le_clog := by
    have hlength := h.length_le (relaxedDeadline_clog start horizonEnd) (Nat.zero_le _)
    rwa [Nat.zero_add] at hlength

end Doubling

section DoublingRuns

variable {start horizonEnd : Time} {k : Nat} {b : DelayBounds} {asked : Answers} {e : SearchEnd}

theorem Doubling.doubled (h : Doubling start horizonEnd k b asked e) :
    Doubled start horizonEnd k (asked.log ++ e.log) := by
  induction h with
  | feasible k b => exact .last k (some true) nofun
  | atHorizon k b hend => exact .last k (some false) fun _ => hend
  | infeasible hend _ ih => exact .next hend ih
  | broken k b => exact .last k none nofun

theorem Doubling.ne_wide (h : Doubling start horizonEnd k b asked e) :
    ∀ b f, e ≠ .wide b f := by
  induction h with
  | infeasible _ _ ih => exact ih
  | feasible | atHorizon | broken => nofun

/-- No answered deadline is left between the bounds. -/
theorem Doubling.settles (h : Doubling start horizonEnd k b asked e)
    (hlower : b.lower < relaxedDeadline start horizonEnd k) :
    b.lower ≤ e.bounds.lower ∧
      ∀ t ∈ asked.log.deadlines, t ≤ e.bounds.lower ∨ e.bounds.upper = some t := by
  induction h with
  | feasible k b => exact ⟨Int.le_refl _, List.forall_mem_singleton.2 (.inr rfl)⟩
  | atHorizon k b hend =>
      exact ⟨Int.le_of_lt hlower, List.forall_mem_singleton.2 (.inl (Int.le_refl _))⟩
  | infeasible hend _ ih =>
      obtain ⟨hle, hrest⟩ := ih (relaxedDeadline_lt_succ hend)
      exact ⟨Int.le_trans (Int.le_of_lt hlower) hle, List.forall_mem_cons.2 ⟨.inl hle, hrest⟩⟩
  | broken k b => exact ⟨Int.le_refl _, fun t ht => absurd ht List.not_mem_nil⟩

theorem doublingFrom_follows (start horizonEnd : Time) (k : Nat) (b : DelayBounds) :
    DelaySearch.Follows (fun _ ask => doublingFrom ask start horizonEnd k b : DelaySearch ε)
      (Doubling start horizonEnd k b) where
  course := doublingFrom_course
  ends := Doubling.ends

end DoublingRuns

/-! ## The halving phase -/

section Halving

variable {deadline lower upper gap : Time} {asked : Answers} {e : SearchEnd}

/-- Rounded up, the binary logarithm of half a gap is less by one, also for the larger half. -/
theorem clog_half_lt {gap half : Int} (hgap : 2 ≤ gap) (hhalf : half ≤ gap - gap / 2) :
    Nat.clog 2 half.toNat + 1 ≤ Nat.clog 2 gap.toNat := by
  have hwide : 2 ≤ gap.toNat := by omega
  have hle : half.toNat ≤ (gap.toNat + 2 - 1) / 2 := by omega
  rw [Nat.clog_of_two_le Nat.one_lt_two hwide]
  exact Nat.succ_le_succ (Nat.clog_mono_right 2 hle)

theorem middle_between (hgap : Time.sub upper lower = .ok gap) (hwide : ¬ gap < 2) :
    lower < lower + gap / 2 ∧ lower + gap / 2 < upper := by
  have hmiddle := middle_bracket lower hgap hwide (Int.le_refl upper)
  exact ⟨hmiddle.1, hmiddle.2.2 upper rfl⟩

theorem fits_sub_of_within {l u : Time} (hlower : lower ≤ l) (hlt : l < u) (hupper : u ≤ upper)
    (hgap : Time.Fits (upper - lower)) : Time.Fits (u - l) :=
  hgap.of_le (Int.sub_nonneg.2 (Int.le_of_lt hlt)) (Int.sub_le_sub hupper hlower)

namespace Halving

theorem between (h : Halving deadline lower upper asked e) :
    ∀ t ∈ (asked.log ++ e.log).deadlines, lower < t ∧ t < upper := by
  induction h with
  | adjacent | wide => exact fun t ht => absurd ht List.not_mem_nil
  | feasible hgap hwide _ ih =>
      obtain ⟨hleft, hright⟩ := middle_between hgap hwide
      refine List.forall_mem_cons.2 ⟨⟨hleft, hright⟩, fun t ht => ?_⟩
      exact (ih t ht).imp_right fun hlt => Int.lt_trans hlt hright
  | infeasible hgap hwide _ ih =>
      obtain ⟨hleft, hright⟩ := middle_between hgap hwide
      refine List.forall_mem_cons.2 ⟨⟨hleft, hright⟩, fun t ht => ?_⟩
      exact (ih t ht).imp_left (Int.lt_trans hleft)
  | broken hgap hwide => exact List.forall_mem_singleton.2 (middle_between hgap hwide)

theorem nodup (h : Halving deadline lower upper asked e) :
    (asked.log ++ e.log).deadlines.Nodup := by
  induction h with
  | adjacent | wide => exact .nil
  | feasible hgap hwide hrest ih =>
      exact List.nodup_cons.2 ⟨fun hmem => Int.lt_irrefl _ (hrest.between _ hmem).2, ih⟩
  | infeasible hgap hwide hrest ih =>
      exact List.nodup_cons.2 ⟨fun hmem => Int.lt_irrefl _ (hrest.between _ hmem).1, ih⟩
  | broken => exact List.pairwise_singleton _ _

theorem length_le (h : Halving deadline lower upper asked e) :
    (asked.log ++ e.log).length ≤ Nat.clog 2 (upper - lower).toNat := by
  induction h with
  | adjacent | wide => exact Nat.zero_le _
  | @feasible lower upper gap asked e hgap hwide _ ih =>
      obtain ⟨rfl, -⟩ := Time.sub_eq_ok_iff.1 hgap
      refine Nat.le_trans (Nat.succ_le_succ ih) (clog_half_lt (Int.not_lt.1 hwide) ?_)
      dsimp only [Time] at *
      omega
  | @infeasible lower upper gap asked e hgap hwide _ ih =>
      obtain ⟨rfl, -⟩ := Time.sub_eq_ok_iff.1 hgap
      refine Nat.le_trans (Nat.succ_le_succ ih) (clog_half_lt (Int.not_lt.1 hwide) ?_)
      dsimp only [Time] at *
      omega
  | @broken lower upper gap hgap hwide =>
      obtain ⟨rfl, -⟩ := Time.sub_eq_ok_iff.1 hgap
      exact Nat.le_trans (Nat.le_add_left 1 _) (clog_half_lt (Int.not_lt.1 hwide) (Int.le_refl _))

/-- All gaps of the phase are in range if the first one is. -/
theorem ne_wide (h : Halving deadline lower upper asked e) (hlt : lower < upper)
    (hfits : Time.Fits (upper - lower)) : ∀ b f, e ≠ .wide b f := by
  rintro b f rfl
  obtain ⟨u, hu, hgap⟩ := h.ending hlt (Int.le_refl upper)
  have hnarrows := h.narrows (Int.le_refl upper)
  have hwithin := hnarrows.within
    ⟨Int.le_of_lt hlt, by rintro _ ⟨⟩; exact ⟨hlt, Int.le_refl _⟩⟩
  obtain ⟨hbefore, hupper⟩ := hwithin.2 u hu
  have hnarrow := fits_sub_of_within hnarrows.lower_le hbefore hupper hfits
  exact absurd (hgap.symm.trans (Time.sub_eq_ok_iff.2 ⟨rfl, hnarrow⟩)) (by simp)

end Halving

/-- The log of a halving phase. -/
structure Bisects (lower upper : Time) (log : ProbeLog) : Prop where
  between : ∀ t ∈ log.deadlines, lower < t ∧ t < upper
  length_le : log.length ≤ Nat.clog 2 (upper - lower).toNat

theorem halveGap_follows (deadline lower upper : Time) :
    DelaySearch.Follows (fun _ ask => halveGap ask deadline lower upper : DelaySearch ε)
      (Halving deadline lower upper) where
  course := halveGap_course
  ends := Halving.ends

end Halving

/-! ## Searches -/

section Searches

variable (probe : Time → Action ε σ Bool) (horizonEnd : Time) (b : DelayBounds) (s : σ)

theorem exponentialSearch_runs :
    ∃ log r s',
      DelaySearch.Runs (fun _ ask => exponentialSearch ask horizonEnd b) probe s log r s' ∧
        DoublesUp b.lower horizonEnd log ∧ ((∃ b', r = .ok b') ↔ log.IsAnswered) ∧
        ∀ b', r = .ok b' → b.lower ≤ b'.lower ∧
          ∀ t ∈ log.deadlines, t ≤ b'.lower ∨ b'.upper = some t := by
  unfold exponentialSearch
  by_cases hend : horizonEnd ≤ b.lower
  · simp only [if_pos hend]
    refine ⟨[], _, s, .pure probe s b, doublesUp_nil hend, iff_of_true ⟨b, rfl⟩ (by simp), ?_⟩
    rintro b' ⟨⟩
    simp
  · simp only [if_neg hend]
    obtain ⟨asked, e, m, r, s', hcourse, hconcludes, hruns⟩ :=
      (doublingFrom_follows b.lower horizonEnd 0 b).exists_runs probe s
    have hstart := Int.not_le.1 hend
    refine ⟨_, r, s', hruns, hcourse.doubled.doublesUp hstart,
      hconcludes.isAnswered_iff hcourse.ne_wide asked, ?_⟩
    rintro b' rfl
    obtain rfl := hconcludes.eq_found
    obtain ⟨hle, hsettles⟩ := hcourse.settles (lt_relaxedDeadline hstart)
    rw [SearchEnd.log, List.append_nil]
    exact ⟨hle, hsettles⟩

theorem binarySearch_runs :
    ∃ log r s', DelaySearch.Runs (fun _ ask => binarySearch ask b) probe s log r s' ∧
      log.deadlines.Nodup ∧ ∀ t ∈ log.deadlines, ∃ u, b.upper = some u ∧ b.lower < t ∧ t < u := by
  obtain ⟨deadline, lower, _ | upper⟩ := b
  · exact ⟨[], _, s, .pure probe s _, .nil, by simp⟩
  · obtain ⟨asked, e, m, r, s', hcourse, -, hruns⟩ :=
      (halveGap_follows deadline lower upper).exists_runs probe s
    exact ⟨_, r, s', hruns, hcourse.nodup, fun t ht => ⟨upper, rfl, hcourse.between t ht⟩⟩

/-- Both phases together probe no deadline twice, and not the first lower bound. -/
theorem delaySearch_runs :
    ∃ log r s',
      DelaySearch.Runs (fun _ ask => exponentialSearch ask horizonEnd b >>= binarySearch ask) probe
          s log r s' ∧
        (b.lower :: log.deadlines).Nodup := by
  obtain ⟨log, r, m, hfirst, hdoubles, -, hsettles⟩ := exponentialSearch_runs probe horizonEnd b s
  have hincreasing : (b.lower :: log.deadlines).Pairwise (· < ·) :=
    List.pairwise_cons.2 ⟨fun t ht => (hdoubles.within t ht).1, hdoubles.increasing⟩
  have hnodup : (b.lower :: log.deadlines).Nodup := hincreasing.imp Int.ne_of_lt
  cases r with
  | error stop => exact ⟨log, _, m, hfirst.bind_error, hnodup⟩
  | ok b' =>
      obtain ⟨hlower, hsettled⟩ := hsettles b' rfl
      obtain ⟨more, r, s', hsecond, hmore, hbetween⟩ := binarySearch_runs probe b' m
      refine ⟨log ++ more, r, s', hfirst.bind hsecond, ?_⟩
      rw [ProbeLog.deadlines_append, ← List.cons_append]
      refine List.nodup_append.2 ⟨hnodup, hmore, ?_⟩
      -- the second phase probes between the bounds only, where the first phase leaves nothing
      rintro t ht t' ht' rfl
      obtain ⟨u, hu, hafter, hbefore⟩ := hbetween t ht'
      rcases List.mem_cons.1 ht with rfl | hlog
      · exact Int.not_le.2 hafter hlower
      · rcases hsettled t hlog with hle | hupper
        · exact Int.not_le.2 hafter hle
        · obtain rfl := Option.some.inj (hu.symm.trans hupper)
          exact Int.lt_irrefl _ hbefore

end Searches

/-- Whatever its probe answers, the doubling phase probes the deadlines `2 ^ k` steps after its start
up to the first feasible one or the end of the horizon, and the halving phase deadlines between its
bounds; both make logarithmically many probes and give bounds if all of these are answered. Together
they probe no deadline twice. -/
theorem delaySearch_probes (probe : Time → Action ε σ Bool) (horizonEnd : Time) (b : DelayBounds)
    (s : σ) :
    (∃ log r s',
        DelaySearch.Runs (fun _ ask => exponentialSearch ask horizonEnd b) probe s log r s' ∧
          DoublesUp b.lower horizonEnd log ∧ ((∃ b', r = .ok b') ↔ log.IsAnswered)) ∧
      (∀ upper, b.upper = some upper → b.lower < upper → Time.Fits (upper - b.lower) →
        ∃ log r s', DelaySearch.Runs (fun _ ask => binarySearch ask b) probe s log r s' ∧
          Bisects b.lower upper log ∧ ((∃ b', r = .ok b') ↔ log.IsAnswered)) ∧
      ∃ log r s',
        DelaySearch.Runs (fun _ ask => exponentialSearch ask horizonEnd b >>= binarySearch ask)
            probe s log r s' ∧
          (b.lower :: log.deadlines).Nodup := by
  refine ⟨?_, ?_, delaySearch_runs probe horizonEnd b s⟩
  · obtain ⟨log, r, s', hruns, hdoubles, hanswered, -⟩ :=
      exponentialSearch_runs probe horizonEnd b s
    exact ⟨log, r, s', hruns, hdoubles, hanswered⟩
  · intro upper hupper hlt hfits
    obtain ⟨deadline, lower, upper'⟩ := b
    obtain rfl : upper' = some upper := hupper
    obtain ⟨asked, e, m, r, s', hcourse, hconcludes, hruns⟩ :=
      (halveGap_follows deadline lower upper).exists_runs probe s
    have hanswered := hconcludes.isAnswered_iff (hcourse.ne_wide hlt hfits) asked
    exact ⟨_, r, s', hruns, ⟨hcourse.between, hcourse.length_le⟩, hanswered⟩

/-- Deadlines from a given one on are feasible. -/
def feasibleFrom (first t : Time) : Action String Unit Bool :=
  pure (decide (first ≤ t))

/-- The halving phase with the widest gap in range. -/
theorem delaySearch_probes_widest :
    Time.lowest < -1 ∧ Time.Fits (-1 - Time.lowest) ∧
      ∃ log r s',
        DelaySearch.Runs (fun _ ask => binarySearch ask ⟨Time.lowest, Time.lowest, some (-1)⟩)
            (feasibleFrom (-5)) () log r s' ∧
          Bisects Time.lowest (-1) log ∧ ((∃ b', r = .ok b') ↔ log.IsAnswered) := by
  have hlt : Time.lowest < -1 := by decide
  have hfits : Time.Fits (-1 - Time.lowest) := by decide
  exact ⟨hlt, hfits, (delaySearch_probes (feasibleFrom (-5)) Time.highest
    ⟨Time.lowest, Time.lowest, some (-1)⟩ ()).2.1 (-1) rfl hlt hfits⟩

end Punctual
