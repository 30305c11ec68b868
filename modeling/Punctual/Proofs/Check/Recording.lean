import Punctual.Check.Artifact
import Punctual.Proofs.Check.Reachability

/-!
# Sessions with records

In a check every infeasible deadline is recorded before the next question. `Recorded` lists the
events of questions whose records succeed, and `Stopped` the events of one that breaks off: because
there is no answer, because the delay is out of range, or because the record cannot be written.
-/

namespace Punctual

variable {σ : Type}

/-! ## Records of infeasible deadlines -/

namespace Recorder

/-- The record that a task is delayed. -/
def entry (r : Recorder) (delay : Time) : DelayRecord :=
  ⟨r.time, r.absoluteTime, r.horizon, r.task, delay⟩

/-- The text of the record that a deadline is infeasible. -/
def textAfter (r : Recorder) (lower : Time) : String :=
  (r.entry (lower - r.task.deadline + 1)).text

/-- The delay after a deadline is recorded if it is in range. -/
theorem delayAfter_eq_ok_iff {lower deadline delay : Time} (hlate : deadline ≤ lower) :
    delayAfter lower deadline = .ok delay ↔
      delay = lower - deadline + 1 ∧ Time.Fits (lower - deadline + 1) := by
  unfold delayAfter
  rw [except_bind_eq_ok]
  constructor
  · rintro ⟨gap, hgap, hdelay⟩
    obtain ⟨rfl, -⟩ := Time.sub_eq_ok_iff.1 hgap
    exact Time.add_eq_ok_iff.1 hdelay
  · rintro ⟨rfl, hfits⟩
    refine ⟨_, Time.sub_eq_ok_iff.2 ⟨rfl, ?_⟩, Time.add_eq_ok_iff.2 ⟨rfl, hfits⟩⟩
    exact hfits.of_le (Int.sub_nonneg.2 hlate) (Int.le_add_of_nonneg_right (by decide))

theorem not_fits_of_delayAfter {lower deadline : Time} {f : Fault} (hlate : deadline ≤ lower)
    (h : delayAfter lower deadline = .error f) : ¬ Time.Fits (lower - deadline + 1) := by
  intro hfits
  have hok := (delayAfter_eq_ok_iff hlate).2 ⟨rfl, hfits⟩
  exact absurd (h.symm.trans hok) (by simp)

variable (backend : Backend σ) (combiner : Combiner σ) {r : Recorder} {lower : Time}
  {w w' : World σ}

theorem record_course {delay : Time} (h : Ends (r.record lower) w (.ok delay) w') :
    delayAfter lower r.task.deadline = .ok delay ∧
      Course backend combiner r.dir w [.wrote .delay (r.entry delay).text] w' := by
  unfold record at h
  rcases ends_ofFault_bind.1 h with ⟨d, hdelay, hnext⟩ | ⟨f, -, hstop, -⟩
  · obtain ⟨path, m, hwrite, hlast⟩ := ends_bind_ok.1 hnext
    rw [ends_info_bind] at hlast
    obtain ⟨rfl, rfl⟩ := ends_pure_ok.1 hlast
    obtain ⟨-, hcourse⟩ := write_course hwrite
    exact ⟨hdelay, hcourse.thenLogged _⟩
  · simp at hstop

/-- A record that fails leaves no trace. -/
theorem record_error {stop : Stop CheckError} (h : Ends (r.record lower) w (.error stop) w') :
    w' = w ∧
      ((∃ f, delayAfter lower r.task.deadline = .error f ∧ stop = .fault f) ∨
        ∃ delay e, delayAfter lower r.task.deadline = .ok delay ∧
          stop = .error (.artifact (Artifact.delay.pathIn r.dir) e)) := by
  unfold record at h
  rcases ends_ofFault_bind.1 h with ⟨d, hdelay, hnext⟩ | ⟨f, hf, hstop, hw⟩
  · rcases ends_bind_error.1 hnext with ⟨path, m, hwrite, hlast⟩ | hwrite
    · rw [ends_info_bind] at hlast
      exact absurd (ends_pure.1 hlast).1 (by simp)
    · obtain ⟨⟨e, rfl⟩, hw⟩ := ends_write_error hwrite
      exact ⟨hw, .inr ⟨d, e, hdelay, rfl⟩⟩
  · exact ⟨hw, .inl ⟨f, hf, Except.error.inj hstop⟩⟩

/-- What is done with infeasible deadlines. -/
def handOn (r : Recorder) (lower : Time) : Check σ Unit := do
  let _ ← r.record lower

theorem handOn_course (h : Ends (r.handOn lower) w (.ok ()) w') :
    ∃ delay, delayAfter lower r.task.deadline = .ok delay ∧
      Course backend combiner r.dir w [.wrote .delay (r.entry delay).text] w' := by
  obtain ⟨delay, m, hrecord, hlast⟩ := ends_bind_ok.1 h
  obtain ⟨-, rfl⟩ := ends_pure.1 hlast
  exact ⟨delay, record_course backend combiner hrecord⟩

theorem handOn_error {stop : Stop CheckError} (h : Ends (r.handOn lower) w (.error stop) w') :
    Ends (r.record lower) w (.error stop) w' := by
  rcases ends_bind_error.1 h with ⟨delay, m, -, hlast⟩ | hrecord
  · exact absurd (ends_pure.1 hlast).1 (by simp)
  · exact hrecord

end Recorder

/-! ## Questions with records -/

namespace Check

/-- The events of questions whose infeasible deadlines are recorded. -/
inductive Recorded (r : Recorder) (g : Target) : Answers → List Event → Prop
  | nil : Recorded r g [] []
  | feasible {deadline : Time} {asked : Answers} {es : List Event} (path : String)
      (hrest : Recorded r g asked es) :
      Recorded r g ((deadline, true) :: asked) (queryEvent g deadline (.ok (some path)) :: es)
  | infeasible {deadline delay : Time} {asked : Answers} {es : List Event}
      (hdelay : Recorder.delayAfter deadline r.task.deadline = .ok delay)
      (hrest : Recorded r g asked es) :
      Recorded r g ((deadline, false) :: asked)
        (queryEvent g deadline (.ok none) :: .wrote .delay (r.entry delay).text :: es)

/-- The events of a question that breaks off, or whose answer cannot be recorded. -/
inductive Stopped (r : Recorder) (g : Target) (deadline : Time) :
    List Event → Stop CheckError → Prop
  | unanswered (e : SolverError) :
      Stopped r g deadline [queryEvent g deadline (.error e)] (.error (.solver e))
  /-- The delay is out of range. -/
  | unrecorded {f : Fault}
      (hfault : Recorder.delayAfter deadline r.task.deadline = .error f) :
      Stopped r g deadline [queryEvent g deadline (.ok none)] (.fault f)
  /-- The record could not be written. -/
  | unwritten {delay : Time} (e : IoError)
      (hdelay : Recorder.delayAfter deadline r.task.deadline = .ok delay) :
      Stopped r g deadline [queryEvent g deadline (.ok none)]
        (.error (.artifact (Artifact.delay.pathIn r.dir) e))

/-- The events of questions about a task, from its infeasible deadline on, that narrow the bounds. -/
structure Narrowing (r : Recorder) (g : Target) (deadline : Time) (asked : Answers)
    (b : DelayBounds) (es : List Event) : Prop where
  recorded : Recorded r g ((deadline, false) :: asked) es
  narrows : Narrows r.horizon.closes (.ofDeadline deadline) asked b

section Recorded

variable {backend : Backend σ} {combiner : Combiner σ} {r : Recorder} {g : Target}
  {w w' : World σ} {asked : Answers}

theorem Probing.recorded
    (h : Probing backend combiner r.dir g r.handOn w asked w') :
    ∃ es, Course backend combiner r.dir w es w' ∧ Recorded r g asked es := by
  induction h with
  | nil hsilent => exact ⟨[], hsilent, .nil⟩
  | feasible hasked _ ih =>
      obtain ⟨es, hcourse, hrecorded⟩ := ih
      exact ⟨_, hasked.append hcourse, .feasible _ hrecorded⟩
  | infeasible hasked hheard _ ih =>
      obtain ⟨es, hcourse, hrecorded⟩ := ih
      obtain ⟨delay, hdelay, hwrote⟩ := Recorder.handOn_course backend combiner hheard
      exact ⟨_, hasked.append (hwrote.append hcourse), .infeasible hdelay hrecorded⟩

theorem Breaks.stopped {deadline : Time} {stop : Stop CheckError}
    (h : Breaks backend combiner r.dir g r.handOn deadline w stop w') :
    ∃ es, Course backend combiner r.dir w es w' ∧ Stopped r g deadline es stop := by
  cases h with
  | unanswered hasked => exact ⟨_, hasked, .unanswered _⟩
  | unheard hasked hheard =>
      obtain ⟨rfl, hcause⟩ := Recorder.record_error (Recorder.handOn_error hheard)
      rcases hcause with ⟨f, hfault, rfl⟩ | ⟨delay, e, hdelay, rfl⟩
      · exact ⟨_, hasked, .unrecorded hfault⟩
      · exact ⟨_, hasked, .unwritten e hdelay⟩

/-- Every infeasible deadline that was recorded has a delay in range. -/
theorem Recorded.exists_delay {es : List Event} (h : Recorded r g asked es) {lower : Time}
    (hlower : (lower, false) ∈ asked) :
    ∃ delay, Recorder.delayAfter lower r.task.deadline = .ok delay := by
  induction h with
  | nil => simp at hlower
  | feasible path _ ih => exact ih (by simpa using hlower)
  | infeasible hdelay _ ih =>
      rcases List.mem_cons.1 hlower with heq | htail
      · obtain ⟨rfl, -⟩ := Prod.mk.inj heq
        exact ⟨_, hdelay⟩
      · exact ih htail

theorem Narrowing.exists_delay {deadline : Time} {b : DelayBounds} {es : List Event}
    (h : Narrowing r g deadline asked b es) :
    ∃ delay, Recorder.delayAfter b.lower r.task.deadline = .ok delay :=
  h.recorded.exists_delay h.narrows.lower_mem

end Recorded

end Check

end Punctual
