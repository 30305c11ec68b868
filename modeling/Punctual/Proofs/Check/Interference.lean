import Punctual.Proofs.Check.Likeness
import Punctual.Proofs.Check.Verdict
import Punctual.Proofs.Schedule.Restriction
import Punctual.Proofs.Specification.Chaining

/-!
# What the rest of a schedule can change

Of the schedule, a check uses the horizon, the task that is due first, and the number of tasks with
the same unit and name in front of it. Two schedules that agree on these give the same check, apart
from reports (`Checker.check_ignores_others`). So a check of the tasks of one unit is a check of the
schedule that holds only this unit.
-/

namespace Punctual

open Check Schedule

variable {σ : Type}

/-! ## Derived schedules and their specifications -/

theorem Schedule.single_congr {s₁ s₂ : Schedule} (h : s₁.horizon = s₂.horizon) (t : Task) :
    s₁.single t = s₂.single t := by
  unfold Schedule.single
  rw [h]

theorem Schedule.ordered_of_single {s sub : Schedule} {t : Task} (h : s.single t = .ok sub) :
    sub.ordered = [t] := by
  unfold Schedule.single Schedule.ofUnits at h
  split at h
  · split at h
    · simp at h
    · obtain rfl := Except.ok.inj h
      rfl
  · simp at h

/-- What a check of a task takes from a schedule and from the counts before the task is the same. -/
structure SameOccurrence (t : Task) (s₁ s₂ : Schedule) (counts₁ counts₂ : Counts) : Prop where
  horizon : s₁.horizon = s₂.horizon
  get : counts₁.get t.unit t.name = counts₂.get t.unit t.name
  left : counts₁.Distinct
  right : counts₂.Distinct

namespace SameOccurrence

variable {t : Task} {s₁ s₂ : Schedule} {counts₁ counts₂ : Counts}

theorem withDeadline (h : SameOccurrence t s₁ s₂ counts₁ counts₂) (deadline : Time) :
    SameOccurrence (t.withDeadline deadline) s₁ s₂ counts₁ counts₂ :=
  ⟨h.horizon, h.get, h.left, h.right⟩

end SameOccurrence

/-- Two specifications that differ in their final counts only. -/
structure DeadlineSpec.Alike (spec₁ spec₂ : DeadlineSpec) : Prop where
  counters : spec₁.counters = spec₂.counters
  targets : spec₁.targets = spec₂.targets

namespace DeadlineSpec.Alike

variable {spec₁ spec₂ : DeadlineSpec}

theorem text_eq (h : spec₁.Alike spec₂) : spec₁.text = spec₂.text := by
  unfold DeadlineSpec.text
  rw [h.counters, h.targets]

theorem targetOf?_eq (h : spec₁.Alike spec₂) (t : Task) :
    spec₁.targetOf? t = spec₂.targetOf? t := by
  unfold DeadlineSpec.targetOf?
  rw [h.targets]

end DeadlineSpec.Alike

section Alike

variable {c : Checker σ} {state : PlantState} {t : Task} {s₁ s₂ : Schedule}
  {counts₁ counts₂ : Counts}

/-- The counts of other tasks show in the final counts only, and so in warnings. -/
theorem alike_specify {sub : Schedule} (h : SameOccurrence t s₁ s₂ counts₁ counts₂)
    (hsub : sub.ordered = [t]) :
    Alike DeadlineSpec.Alike (specify counts₁ sub : Check σ DeadlineSpec)
      (specify counts₂ sub) := by
  unfold specify
  by_cases hcount : counts₁.get t.unit t.name < maxCount
  · have hcount₂ : counts₂.get t.unit t.name < maxCount := h.get ▸ hcount
    rw [DeadlineSpec.ofSchedule_single h.left hsub hcount,
      DeadlineSpec.ofSchedule_single h.right hsub hcount₂]
    refine (alike_warnings _ _).bind_same fun _ => alike_pure ⟨?_, ?_⟩
    · simp only [h.get]
    · simp only [Counts.targetOf, h.get]
  · have hcount₂ : ¬ counts₂.get t.unit t.name < maxCount := h.get ▸ hcount
    rw [DeadlineSpec.ofSchedule_of_maxCount hsub hcount,
      DeadlineSpec.ofSchedule_of_maxCount hsub hcount₂]
    exact alike_throw _

theorem alike_derived_bind {α β : Type} {R : α → β → Prop} {x : Except ScheduleError Schedule}
    {f₁ : Schedule → Check σ α} {f₂ : Schedule → Check σ β}
    (hf : ∀ sub, x = .ok sub → Alike R (f₁ sub) (f₂ sub)) :
    Alike R (derived x >>= f₁) (derived x >>= f₂) := by
  cases x with
  | ok sub => exact hf sub rfl
  | error e =>
      have hfail : Alike (fun _ _ => False) (derived (.error e) : Check σ Schedule)
          (derived (.error e)) := alike_fail _
      exact hfail.bind fun _ _ hfalse => hfalse.elim

theorem alike_specified {α β : Type} {R : α → β → Prop} {f₁ : DeadlineSpec → Check σ α}
    {f₂ : DeadlineSpec → Check σ β} (h : SameOccurrence t s₁ s₂ counts₁ counts₂)
    (hf : ∀ spec₁ spec₂, spec₁.Alike spec₂ → Alike R (f₁ spec₁) (f₂ spec₂)) :
    Alike R (derived (s₁.single t) >>= fun sub => specify counts₁ sub >>= f₁)
      (derived (s₂.single t) >>= fun sub => specify counts₂ sub >>= f₂) := by
  rw [Schedule.single_congr h.horizon]
  refine alike_derived_bind fun sub hsub => ?_
  exact (alike_specify h (Schedule.ordered_of_single hsub)).bind hf

/-! ## Full model checking -/

theorem alike_probe (backend : Backend σ) (h : SameOccurrence t s₁ s₂ counts₁ counts₂)
    (deadline : Time) :
    Alike (· = ·) (probe backend s₁ counts₁ t deadline) (probe backend s₂ counts₂ t deadline) := by
  have htarget : Alike (· = ·) (relaxedTarget s₁ counts₁ t deadline : Check σ String)
      (relaxedTarget s₂ counts₂ t deadline) := by
    refine alike_specified (h.withDeadline deadline) fun spec₁ spec₂ hspec => ?_
    rw [hspec.targetOf?_eq]
    cases spec₂.targetOf? (t.withDeadline deadline) with
    | none => exact alike_fail _
    | some target => exact alike_pure rfl
  exact htarget.bind_same fun target => alike_exchange _ _

theorem alike_probeRecorded (backend : Backend σ) (h : SameOccurrence t s₁ s₂ counts₁ counts₂)
    {onInfeasible : Time → Check σ Unit}
    (hon : ∀ deadline, Alike (· = ·) (onInfeasible deadline) (onInfeasible deadline))
    (deadline : Time) :
    Alike (· = ·) (probeRecorded backend s₁ counts₁ t onInfeasible deadline)
      (probeRecorded backend s₂ counts₂ t onInfeasible deadline) := by
  refine (alike_probe backend h deadline).bind_same fun path => ?_
  by_cases hpath : path.isSome
  · rw [if_pos hpath]
    exact alike_pure rfl
  · rw [if_neg hpath]
    exact (hon deadline).bind_same fun _ => alike_pure rfl

theorem alike_reachability (backend : Backend σ) (h : SameOccurrence t s₁ s₂ counts₁ counts₂)
    (searchDelay : Bool) {onInfeasible : Time → Check σ Unit}
    (hon : ∀ deadline, Alike (· = ·) (onInfeasible deadline) (onInfeasible deadline)) :
    Alike (· = ·) (reachability backend s₁ counts₁ t searchDelay onInfeasible)
      (reachability backend s₂ counts₂ t searchDelay onInfeasible) := by
  have hprobe := alike_probeRecorded backend h hon
  refine (alike_probe backend h t.deadline).bind_same fun path => ?_
  cases path with
  | some path => exact (alike_info _).bind_same fun _ => alike_pure rfl
  | none =>
      refine (alike_info _).bind_same fun _ => ?_
      refine (hon t.deadline).bind_same fun _ => ?_
      cases searchDelay with
      | false => exact alike_pure rfl
      | true =>
          simp only [Bool.not_true, Bool.false_eq_true, if_false]
          rw [h.horizon]
          refine (alike_exponentialSearch hprobe _ _).bind_same fun bounds => ?_
          by_cases hnone : bounds.upper.isNone
          · rw [if_pos hnone, if_pos hnone]
            exact (alike_warn _).bind_same fun _ => alike_pure rfl
          · rw [if_neg hnone, if_neg hnone]
            exact (alike_binarySearch hprobe bounds).bind_same fun _ => alike_pure rfl

theorem alike_record (r : Recorder) (lower : Time) :
    Alike (· = ·) (r.record lower : Check σ Time) (r.record lower) := by
  refine (alike_ofFault _).bind_same fun delay => ?_
  refine (alike_write _ _ _).bind_same fun _ => ?_
  exact (alike_info _).bind_same fun _ => alike_pure rfl

/-! ## Checks -/

theorem alike_announce (found : Reachability) :
    Alike (· = ·) (c.announce t found) (c.announce t found) := by
  have hlast (verdict : Verdict) : Alike (· = ·)
      ((pure verdict : Check σ Verdict) >>= fun v => info ("Result: " ++ v.text) >>= fun _ => pure v)
      (pure verdict >>= fun v => info ("Result: " ++ v.text) >>= fun _ => pure v) :=
    (alike_pure rfl).bind_same fun _ => (alike_info _).bind_same fun _ => alike_pure rfl
  cases found with
  | feasible path => exact (alike_write _ _ _).bind_same fun _ => hlast _
  | infeasible bounds =>
      unfold Checker.announce
      dsimp only
      by_cases hnone : bounds.upper.isNone
      · rw [if_pos hnone]
        exact hlast _
      · rw [if_neg hnone]
        exact (alike_ofFault _).bind_same fun _ => hlast _
  | delayAssumed bounds => exact (alike_ofFault _).bind_same fun _ => hlast _

theorem alike_decideInconclusive (h : SameOccurrence t s₁ s₂ counts₁ counts₂) (path : String)
    (found : BmcSearch) :
    Alike (· = ·) (c.decideInconclusive s₁ state counts₁ t path found)
      (c.decideInconclusive s₂ state counts₂ t path found) := by
  have hrecorder : Recorder.ofTask c.dir s₁ state t = Recorder.ofTask c.dir s₂ state t := by
    unfold Recorder.ofTask
    rw [h.horizon]
  unfold Checker.decideInconclusive
  rw [hrecorder]
  refine (alike_ofFault _).bind_same fun answer => ?_
  cases answer with
  | some time =>
      refine (alike_warn _).bind_same fun _ => ?_
      refine (alike_ofFault _).bind_same fun lower => ?_
      exact (alike_record _ lower).bind_same fun _ => alike_pure rfl
  | none =>
      dsimp only
      by_cases hfallback : !c.options.fallback
      · rw [if_pos hfallback, if_pos hfallback]
        exact (alike_info _).bind_same fun _ => alike_pure rfl
      · rw [if_neg hfallback, if_neg hfallback]
        refine (alike_info _).bind_same fun _ => ?_
        refine (alike_exchange _ _).bind_same fun _ => ?_
        refine (alike_reachability c.backend h _ fun lower => ?_).bind_same fun found =>
          alike_announce found
        exact (alike_record _ lower).bind_same fun _ => alike_pure rfl

theorem alike_metadataFiles (metadata : Option Metadata) :
    Alike (· = ·) (metadataFiles metadata t : Check σ (List String)) (metadataFiles metadata t) := by
  unfold metadataFiles
  cases metadata with
  | none => exact alike_pure rfl
  | some m => exact (alike_warnings _ _).bind_same fun _ => alike_pure rfl

theorem alike_assemble (combiner : Combiner σ) (options : CombineOptions)
    (metadata : Option Metadata) (dir : String) {spec₁ spec₂ : DeadlineSpec}
    (hspec : spec₁.Alike spec₂) :
    Alike (· = ·) (assemble combiner options metadata dir spec₁ state t)
      (assemble combiner options metadata dir spec₂ state t) := by
  unfold assemble
  rw [hspec.text_eq]
  refine (alike_write _ _ _).bind_same fun _ => (alike_write _ _ _).bind_same fun _ => ?_
  refine (alike_metadataFiles metadata).bind_same fun files => ?_
  refine (alike_combined _).bind_same fun model => (alike_write _ _ _).bind_same fun path => ?_
  exact (alike_info _).bind_same fun _ => alike_pure rfl

theorem alike_checkTask (h : SameOccurrence t s₁ s₂ counts₁ counts₂) :
    Alike (· = ·) (c.checkTask s₁ state counts₁ t) (c.checkTask s₂ state counts₂ t) := by
  refine alike_specified h fun spec₁ spec₂ hspec => ?_
  rw [hspec.targetOf?_eq]
  cases spec₂.targetOf? t with
  | none => exact alike_fail _
  | some target =>
      refine (alike_assemble _ _ _ _ hspec).bind_same fun assembled => ?_
      obtain ⟨path, model⟩ := assembled
      refine (alike_search _ _ _ _ _).bind_same fun found => ?_
      by_cases hmeets : found.meets t.deadline
      · rw [if_pos hmeets, if_pos hmeets]
        cases found.counterexample with
        | none => exact (alike_info _).bind_same fun _ => alike_pure rfl
        | some trace =>
            refine (alike_write _ _ _).bind_same fun _ => ?_
            exact (alike_info _).bind_same fun _ => alike_pure rfl
      · rw [if_neg hmeets, if_neg hmeets]
        exact alike_decideInconclusive h path found

end Alike

namespace Checker

variable {c : Checker σ} {s s₁ s₂ : Schedule} {state : PlantState} {t : Task}
  {i₁ i₂ active₁ active₂ : Nat} {counts₁ counts₂ : Counts}

/-- The same checker for the tasks of one unit, or for all tasks. -/
def withKey (c : Checker σ) (unit : Option String) : Checker σ :=
  { c with options := { c.options with keyUnit := unit } }

theorem alike_check_of_select {key₁ key₂ : Option String}
    (hselect₁ : select s₁.ordered state.time (c.withKey key₁).options.keyUnit =
      some (i₁, t, active₁))
    (hselect₂ : select s₂.ordered state.time (c.withKey key₂).options.keyUnit =
      some (i₂, t, active₂))
    (hcounts₁ : Counts.ofTasks (s₁.ordered.take i₁) = .ok counts₁)
    (hcounts₂ : Counts.ofTasks (s₂.ordered.take i₂) = .ok counts₂)
    (h : SameOccurrence t s₁ s₂ counts₁ counts₂) :
    Alike (· = ·) ((c.withKey key₁).check s₁ state) ((c.withKey key₂).check s₂ state) := by
  refine (alike_write _ _ _).bind_same fun _ => ?_
  unfold checkActive
  rw [hselect₁, hselect₂]
  refine alike_warn_if ((alike_info _).bind_same fun _ => ?_)
  rw [hcounts₁, hcounts₂]
  -- the key unit is of no use once the task is selected
  exact alike_checkTask (c := c) h

theorem alike_check_of_none {key₁ key₂ : Option String}
    (hselect₁ : select s₁.ordered state.time (c.withKey key₁).options.keyUnit = none)
    (hselect₂ : select s₂.ordered state.time (c.withKey key₂).options.keyUnit = none) :
    Alike (· = ·) ((c.withKey key₁).check s₁ state) ((c.withKey key₂).check s₂ state) := by
  refine (alike_write _ _ _).bind_same fun _ => ?_
  unfold checkActive
  rw [hselect₁, hselect₂]
  exact (alike_info _).bind_same fun _ => alike_pure rfl

/-- There are more tasks of one unit and name than a count can say. -/
def Overcounted (ts : List Task) : Prop :=
  ∃ u ∈ ts, maxCount < ts.countP fun v => v.unit = u.unit ∧ v.name = u.name

theorem counts_or_overcounted (ts : List Task) :
    (∃ counts, Counts.ofTasks ts = .ok counts) ∨ Overcounted ts := by
  rcases Counts.after_total .empty ts with hok | ⟨-, u, hu, hmany⟩
  · exact .inl hok
  · have hnone : Counts.empty.get u.unit u.name = 0 := rfl
    rw [hnone, Nat.zero_add] at hmany
    exact .inr ⟨u, hu, hmany⟩

theorem Overcounted.ofTasks_eq {ts : List Task} (h : Overcounted ts) :
    Counts.ofTasks ts = .error .sumOutOfRange := by
  rcases Counts.after_total .empty ts with ⟨last, hlast⟩ | ⟨hfault, -⟩
  · obtain ⟨u, -, hmany⟩ := h
    have hle : last.get u.unit u.name ≤ maxCount := Counts.get_le_of_after (Nat.zero_le _) hlast
    rw [Counts.get_ofTasks hlast] at hle
    exact absurd hmany (Nat.not_lt.2 hle)
  · exact hfault

theorem Overcounted.of_filter {ts : List Task} {p : Task → Bool} (h : Overcounted (ts.filter p)) :
    Overcounted ts := by
  obtain ⟨u, hu, hmany⟩ := h
  refine ⟨u, (List.mem_filter.1 hu).1, Nat.lt_of_lt_of_le hmany ?_⟩
  exact List.Sublist.countP_le List.filter_sublist

/-- The tasks in front of the task of a check are too many to be counted. -/
def Overcounts (c : Checker σ) (s : Schedule) (state : PlantState) : Prop :=
  ∃ i t active, select s.ordered state.time c.options.keyUnit = some (i, t, active) ∧
    Overcounted (s.ordered.take i)

/-- Such a check breaks off before its model is combined. -/
theorem Overcounts.breaks {w w' : World σ} {result : Except (Stop CheckError) Verdict}
    (hover : c.Overcounts s state) (h : Ends (c.check s state) w result w') :
    result = .error (.fault .sumOutOfRange) ∨
      ∃ e, result = .error (.error (.artifact (Artifact.path.pathIn c.dir) e)) := by
  obtain ⟨i, t, active, hselect, hmany⟩ := hover
  rcases ends_bind.1 h with ⟨path, m, -, h⟩ | ⟨stop, rfl, hwrite⟩
  · unfold checkActive at h
    rw [hselect] at h
    obtain ⟨reports, h⟩ := ends_warn_if_bind h
    rw [ends_info_bind, hmany.ofTasks_eq] at h
    rcases ends_ofFault_bind.1 h with ⟨counts, hcounts, -⟩ | ⟨f, hfault, hresult, -⟩
    · simp at hcounts
    · obtain rfl := Except.error.inj hfault
      exact .inl hresult
  · obtain ⟨⟨e, rfl⟩, -⟩ := ends_write_error hwrite
    exact .inr ⟨e, rfl⟩

theorem not_overcounts_of_taskCount_le (h : s.taskCount ≤ maxCount) : ¬ c.Overcounts s state := by
  rintro ⟨i, t, active, -, u, -, hmany⟩
  have hcount := List.countP_le_length (l := s.ordered.take i)
    (p := fun v => decide (v.unit = u.unit ∧ v.name = u.name))
  have htake : (s.ordered.take i).length ≤ s.ordered.length := List.length_take_le' _ _
  have hordered : s.ordered.length = s.taskCount := (byDeadline_perm _).length_eq
  omega

theorem sameOccurrence_of_countP (hhorizon : s₁.horizon = s₂.horizon)
    (hcounts₁ : Counts.ofTasks (s₁.ordered.take i₁) = .ok counts₁)
    (hcounts₂ : Counts.ofTasks (s₂.ordered.take i₂) = .ok counts₂)
    (hcount : ((s₁.ordered.take i₁).countP fun u => u.unit = t.unit ∧ u.name = t.name) =
      ((s₂.ordered.take i₂).countP fun u => u.unit = t.unit ∧ u.name = t.name)) :
    SameOccurrence t s₁ s₂ counts₁ counts₂ := by
  refine ⟨hhorizon, ?_, Counts.distinct_of_ofTasks hcounts₁, Counts.distinct_of_ofTasks hcounts₂⟩
  rw [Counts.get_ofTasks hcounts₁, Counts.get_ofTasks hcounts₂]
  exact hcount

/-- Begun in the same world, the two checks end with the same result, the same files, the same model
checker and the same exchanges with it. -/
def Indistinguishable (act₁ act₂ : Check σ Verdict) : Prop :=
  ∀ w, ∃ r w₁ w₂, Ends act₁ w r w₁ ∧ Ends act₂ w r w₂ ∧ w₁.Alike w₂

theorem indistinguishable_of_alike {act₁ act₂ : Check σ Verdict}
    (h : Alike (· = ·) act₁ act₂) : Indistinguishable act₁ act₂ := by
  intro w
  obtain ⟨r₁, r₂, w₁, w₂, hends₁, hends₂, hresults, hw⟩ := h w w (.refl w)
  cases hresults with
  | @ok v v' hv =>
      obtain rfl : v = v' := hv
      exact ⟨.ok v, w₁, w₂, hends₁, hends₂, hw⟩
  | error stop => exact ⟨.error stop, w₁, w₂, hends₁, hends₂, hw⟩

/-- Other tasks and other units have no influence on a check, but through the number of tasks of the
same unit and name in front of its task; and a check for one unit is a check of the schedule
restricted to this unit. The only exception is a schedule with more tasks of one unit and name in
front of the task than a count can say, whose check breaks off (`Overcounts.breaks`). -/
theorem check_ignores_others (c : Checker σ) (state : PlantState) :
    (∀ s₁ s₂ i₁ i₂ t active₁ active₂, s₁.horizon = s₂.horizon →
      select s₁.ordered state.time c.options.keyUnit = some (i₁, t, active₁) →
      select s₂.ordered state.time c.options.keyUnit = some (i₂, t, active₂) →
      ((s₁.ordered.take i₁).countP fun u => u.unit = t.unit ∧ u.name = t.name) =
        ((s₂.ordered.take i₂).countP fun u => u.unit = t.unit ∧ u.name = t.name) →
      Indistinguishable (c.check s₁ state) (c.check s₂ state) ∨
        c.Overcounts s₁ state ∨ c.Overcounts s₂ state) ∧
    ∀ s unit,
      Indistinguishable ((c.withKey (some unit)).check s state)
        ((c.withKey none).check (s.restrictedTo unit) state) ∨
      (c.withKey (some unit)).Overcounts s state := by
  constructor
  · intro s₁ s₂ i₁ i₂ t active₁ active₂ hhorizon hselect₁ hselect₂ hcount
    rcases counts_or_overcounted (s₁.ordered.take i₁) with ⟨counts₁, hcounts₁⟩ | hover
    · rcases counts_or_overcounted (s₂.ordered.take i₂) with ⟨counts₂, hcounts₂⟩ | hover
      · have h := sameOccurrence_of_countP hhorizon hcounts₁ hcounts₂ hcount
        have halike : Alike (· = ·) (c.check s₁ state) (c.check s₂ state) :=
          alike_check_of_select (c := c) hselect₁ hselect₂ hcounts₁ hcounts₂ h
        exact .inl (indistinguishable_of_alike halike)
      · exact .inr (.inr ⟨i₂, t, active₂, hselect₂, hover⟩)
    · exact .inr (.inl ⟨i₁, t, active₁, hselect₁, hover⟩)
  · intro s unit
    cases hselect : select s.ordered state.time (some unit) with
    | none =>
        have hselect₂ := select_filter_eq_none hselect
        rw [← ordered_restrictedTo] at hselect₂
        exact .inl (indistinguishable_of_alike (alike_check_of_none hselect hselect₂))
    | some selected =>
        obtain ⟨i, t, active⟩ := selected
        obtain ⟨i', active', hselect₂, htake, hunit⟩ := select_filter hselect
        rw [← ordered_restrictedTo] at hselect₂ htake
        have hcount : ((s.ordered.take i).countP fun u => u.unit = t.unit ∧ u.name = t.name) =
            (((s.restrictedTo unit).ordered.take i').countP
              fun u => u.unit = t.unit ∧ u.name = t.name) := by
          rw [htake, List.countP_filter]
          refine List.countP_congr fun u _ => ?_
          simp only [decide_eq_true_eq, Bool.and_eq_true]
          exact ⟨fun hu => ⟨hu, hu.1.trans hunit⟩, fun hu => hu.1⟩
        rcases counts_or_overcounted (s.ordered.take i) with ⟨counts₁, hcounts₁⟩ | hover
        · rcases counts_or_overcounted ((s.restrictedTo unit).ordered.take i') with
            ⟨counts₂, hcounts₂⟩ | hover
          · have hhorizon : s.horizon = (s.restrictedTo unit).horizon := rfl
            have h := sameOccurrence_of_countP hhorizon hcounts₁ hcounts₂ hcount
            have halike := alike_check_of_select (c := c) hselect hselect₂ hcounts₁ hcounts₂ h
            exact .inl (indistinguishable_of_alike halike)
          · rw [htake] at hover
            exact .inr ⟨i, t, active, hselect, hover.of_filter⟩
        · exact .inr ⟨i, t, active, hselect, hover⟩

/-- The schedule of one task, with a task of another unit that is due earlier. -/
def accompanied : Schedule where
  horizon := lone.horizon
  units := [("m", [⟨"n", ⟨0, 3⟩⟩]), ("u", [⟨"n", ⟨0, 5⟩⟩])]
  opens_le_closes := lone.opens_le_closes
  fitsIn := by decide

theorem accompanied_ignored :
    lone.horizon = accompanied.horizon ∧
      select lone.ordered 0 (some "u") = some (0, loneTask, 1) ∧
      select accompanied.ordered 0 (some "u") = some (1, loneTask, 1) ∧
      Indistinguishable ((carefree.withKey (some "u")).check lone ⟨0, .null, []⟩)
        ((carefree.withKey (some "u")).check accompanied ⟨0, .null, []⟩) := by
  have hselect₁ : select lone.ordered 0 (some "u") = some (0, loneTask, 1) := by decide
  have hselect₂ : select accompanied.ordered 0 (some "u") = some (1, loneTask, 1) := by decide
  refine ⟨rfl, hselect₁, hselect₂, ?_⟩
  rcases (check_ignores_others (carefree.withKey (some "u")) ⟨0, .null, []⟩).1 lone accompanied 0 1
    loneTask 1 1 rfl hselect₁ hselect₂ (by decide) with hsame | hover | hover
  · exact hsame
  · exact absurd hover (not_overcounts_of_taskCount_le (by decide))
  · exact absurd hover (not_overcounts_of_taskCount_le (by decide))

end Checker

end Punctual
