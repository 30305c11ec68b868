import Punctual.Check.Reachability
import Punctual.Proofs.Check.Course
import Punctual.Proofs.Delay.Search
import Punctual.Proofs.Specification.Occurrence

/-!
# Courses of exact feasibility

All questions of a session are about one occurrence of the task, each with another deadline between
that of the task and the end of the horizon. `ReachabilityCourse` lists the ways in which a session
goes: after the question about the deadline of the task, a deadline that is answered as infeasible is
handed on before anything else is asked. What is done with it is left open, and may break off.
-/

namespace Punctual.Check

variable {σ : Type} {backend : Backend σ} {dir : String} {s : Schedule}
  {counts : Counts} {t : Task} {w w' : World σ}

/-! ## Questions -/

theorem ends_derived_bind {α : Type} {sub : Schedule} {f : Schedule → Check σ α}
    {r : Except (Stop CheckError) α} :
    Ends (derived (.ok sub) >>= f) w r w' ↔ Ends (f sub) w r w' := by
  change Ends (pure sub >>= f) w r w' ↔ _
  rw [pure_bind]

/-- What follows a specification is done with it in a world with more reports. -/
theorem ends_specify_bind {α : Type} {sub : Schedule} {spec : DeadlineSpec}
    {f : DeadlineSpec → Check σ α} {r : Except (Stop CheckError) α}
    (hspec : DeadlineSpec.ofSchedule counts sub = .ok spec)
    (h : Ends (specify counts sub >>= f) w r w') :
    ∃ reports, Ends (f spec) (w.logged reports) r w' := by
  unfold specify at h
  rw [bind_assoc, ends_ofFault_bind] at h
  rcases h with ⟨spec', hspec', hrest⟩ | ⟨e, he, -⟩
  · obtain rfl := Except.ok.inj (hspec.symm.trans hspec')
    rw [bind_assoc] at hrest
    obtain ⟨reports, hlast⟩ := ends_warnings_bind hrest
    rw [pure_bind] at hlast
    exact ⟨reports, hlast⟩
  · exact absurd (hspec.symm.trans he) (by simp)

theorem ends_specify_bind_of_fault {α : Type} {sub : Schedule} {e : Fault}
    {f : DeadlineSpec → Check σ α} {r : Except (Stop CheckError) α}
    (hspec : DeadlineSpec.ofSchedule counts sub = .error e)
    (h : Ends (specify counts sub >>= f) w r w') : r = .error (.fault e) ∧ w' = w := by
  unfold specify at h
  rw [hspec, bind_assoc, ends_ofFault_bind] at h
  rcases h with ⟨spec, hspec', -⟩ | ⟨e', he, hr, hw⟩
  · simp at hspec'
  · obtain rfl := Except.error.inj he
    exact ⟨hr, hw⟩

/-- Asking about the task with another deadline is asking about the same occurrence. -/
theorem ends_relaxedTarget_bind {α : Type} {deadline : Time} {f : String → Check σ α}
    {r : Except (Stop CheckError) α}
    (ht : t ∈ s.units.tasks) (hcount : counts.get t.unit t.name < maxCount)
    (hlate : t.deadline ≤ deadline) (hhorizon : deadline ≤ s.horizon.closes)
    (h : Ends (relaxedTarget s counts t deadline >>= f) w r w') :
    ∃ reports, Ends (f ((counts.targetOf t).reachedBy deadline)) (w.logged reports) r w' := by
  obtain ⟨sub, hsub, hordered⟩ := Schedule.relaxed_eq_ok ht hlate hhorizon
  obtain ⟨spec, hspec, htarget⟩ := DeadlineSpec.ofSchedule_of_ordered hordered hcount
  unfold relaxedTarget at h
  rw [hsub, bind_assoc, ends_derived_bind, bind_assoc] at h
  obtain ⟨reports, hlast⟩ := ends_specify_bind hspec h
  rw [htarget, pure_bind] at hlast
  exact ⟨reports, hlast⟩

/-- The event of a question about a deadline. -/
def queryEvent (g : Target) (deadline : Time) (answer : Except SolverError (Option String)) :
    Event :=
  .asked (.query (g.reachedBy deadline) answer)

section Probe

variable {deadline : Time} (combiner : Combiner σ) (dir : String)

theorem probe_course_ok {path : Option String}
    (ht : t ∈ s.units.tasks) (hcount : counts.get t.unit t.name < maxCount)
    (hlate : t.deadline ≤ deadline) (hhorizon : deadline ≤ s.horizon.closes)
    (h : Ends (probe backend s counts t deadline) w (.ok path) w') :
    Course backend combiner dir w [queryEvent (counts.targetOf t) deadline (.ok path)] w' := by
  obtain ⟨reports, hasked⟩ := ends_relaxedTarget_bind ht hcount hlate hhorizon h
  exact (Course.logged w reports).append (exchange_course_ok hasked fun _ _ hends => hends)

theorem probe_course_error {stop : Stop CheckError}
    (ht : t ∈ s.units.tasks) (hcount : counts.get t.unit t.name < maxCount)
    (hlate : t.deadline ≤ deadline) (hhorizon : deadline ≤ s.horizon.closes)
    (h : Ends (probe backend s counts t deadline) w (.error stop) w') :
    ∃ e, stop = .error (.solver e) ∧
      Course backend combiner dir w [queryEvent (counts.targetOf t) deadline (.error e)] w' := by
  obtain ⟨reports, hasked⟩ := ends_relaxedTarget_bind ht hcount hlate hhorizon h
  obtain ⟨e, hstop, hcourse⟩ := exchange_course_error combiner hasked fun _ _ hends => hends
  exact ⟨e, hstop, (Course.logged w reports).append hcourse⟩

end Probe

/-! ## Sequences of questions -/

/-- A question about a deadline, or what is done with an infeasible one, breaks off. -/
inductive Breaks (backend : Backend σ) (combiner : Combiner σ) (dir : String) (g : Target)
    (onInfeasible : Time → Check σ Unit) (deadline : Time) (w : World σ) :
    Stop CheckError → World σ → Prop
  | unanswered {e : SolverError} {w' : World σ}
      (hasked : Course backend combiner dir w [queryEvent g deadline (.error e)] w') :
      Breaks backend combiner dir g onInfeasible deadline w (.error (.solver e)) w'
  | unheard {stop : Stop CheckError} {m w' : World σ}
      (hasked : Course backend combiner dir w [queryEvent g deadline (.ok none)] m)
      (hheard : Ends (onInfeasible deadline) m (.error stop) w') :
      Breaks backend combiner dir g onInfeasible deadline w stop w'

/-- Questions about deadlines, each infeasible one handed on before the next question. -/
inductive Probing (backend : Backend σ) (combiner : Combiner σ) (dir : String) (g : Target)
    (onInfeasible : Time → Check σ Unit) : World σ → Answers → World σ → Prop
  | nil {w w' : World σ} (hsilent : Course backend combiner dir w [] w') :
      Probing backend combiner dir g onInfeasible w [] w'
  | feasible {w m w' : World σ} {deadline : Time} {path : String} {asked : Answers}
      (hasked : Course backend combiner dir w [queryEvent g deadline (.ok (some path))] m)
      (hrest : Probing backend combiner dir g onInfeasible m asked w') :
      Probing backend combiner dir g onInfeasible w ((deadline, true) :: asked) w'
  | infeasible {w m m' w' : World σ} {deadline : Time} {asked : Answers}
      (hasked : Course backend combiner dir w [queryEvent g deadline (.ok none)] m)
      (hheard : Ends (onInfeasible deadline) m (.ok ()) m')
      (hrest : Probing backend combiner dir g onInfeasible m' asked w') :
      Probing backend combiner dir g onInfeasible w ((deadline, false) :: asked) w'

section Probing

variable {combiner : Combiner σ} {onInfeasible : Time → Check σ Unit} {deadline : Time}

theorem probeRecorded_ends (dir : String) {stop : Stop CheckError}
    (ht : t ∈ s.units.tasks) (hcount : counts.get t.unit t.name < maxCount)
    (hlate : t.deadline ≤ deadline) (hhorizon : deadline ≤ s.horizon.closes)
    (h : Ends (probeRecorded backend s counts t onInfeasible deadline) w (.error stop) w') :
    Breaks backend combiner dir (counts.targetOf t) onInfeasible deadline w stop w' := by
  unfold probeRecorded at h
  rcases ends_bind_error.1 h with ⟨path, m, hprobe, hrest⟩ | hprobe
  · have hasked := probe_course_ok combiner dir ht hcount hlate hhorizon hprobe
    cases path with
    | some path => exact absurd (ends_pure.1 hrest).1 (by simp)
    | none =>
        rcases ends_bind_error.1 hrest with ⟨_, m', hheard, hlast⟩ | hheard
        · exact absurd (ends_pure.1 hlast).1 (by simp)
        · exact .unheard hasked hheard
  · obtain ⟨e, rfl, hasked⟩ := probe_course_error combiner dir ht hcount hlate hhorizon hprobe
    exact .unanswered hasked

theorem Probing.cons (dir : String) {feasible : Bool} {asked : Answers} {m : World σ}
    (ht : t ∈ s.units.tasks) (hcount : counts.get t.unit t.name < maxCount)
    (hlate : t.deadline ≤ deadline) (hhorizon : deadline ≤ s.horizon.closes)
    (h : Ends (probeRecorded backend s counts t onInfeasible deadline) w (.ok feasible) m)
    (hrest : Probing backend combiner dir (counts.targetOf t) onInfeasible m asked w') :
    Probing backend combiner dir (counts.targetOf t) onInfeasible w
      ((deadline, feasible) :: asked) w' := by
  unfold probeRecorded at h
  obtain ⟨path, m', hprobe, hnext⟩ := ends_bind_ok.1 h
  have hasked := probe_course_ok combiner dir ht hcount hlate hhorizon hprobe
  cases path with
  | some path =>
      obtain ⟨rfl, rfl⟩ := ends_pure_ok.1 hnext
      exact .feasible hasked hrest
  | none =>
      obtain ⟨_, m'', hheard, hlast⟩ := ends_bind_ok.1 hnext
      obtain ⟨rfl, rfl⟩ := ends_pure_ok.1 hlast
      exact .infeasible hasked hheard hrest

/-- Probes of a search ask about deadlines of the task within the horizon. -/
theorem Probed.probing (dir : String) {asked more : Answers} {m : World σ}
    (ht : t ∈ s.units.tasks) (hcount : counts.get t.unit t.name < maxCount)
    (h : Probed (probeRecorded backend s counts t onInfeasible) w asked m)
    (hwithin : ∀ p ∈ asked, t.deadline ≤ p.1 ∧ p.1 ≤ s.horizon.closes)
    (hrest : Probing backend combiner dir (counts.targetOf t) onInfeasible m more w') :
    Probing backend combiner dir (counts.targetOf t) onInfeasible w (asked ++ more) w' := by
  induction h with
  | nil => exact hrest
  | cons hprobe _ ih =>
      obtain ⟨hlate, hhorizon⟩ := hwithin _ List.mem_cons_self
      have htail := ih (fun p hp => hwithin p (List.mem_cons_of_mem _ hp)) hrest
      exact .cons dir ht hcount hlate hhorizon hprobe htail

end Probing

/-! ## Sessions -/

/-- The ways in which a session about a task goes. -/
inductive ReachabilityCourse (backend : Backend σ) (combiner : Combiner σ) (dir : String)
    (horizonEnd deadline : Time) (g : Target) (searchDelay : Bool)
    (onInfeasible : Time → Check σ Unit) (w : World σ) :
    Except (Stop CheckError) Reachability → World σ → Prop
  /-- The question about the deadline of the task breaks off. -/
  | undecided {stop : Stop CheckError} {w' : World σ}
      (hbreaks : Breaks backend combiner dir g onInfeasible deadline w stop w') :
      ReachabilityCourse backend combiner dir horizonEnd deadline g searchDelay onInfeasible w
        (.error stop) w'
  | feasible {path : String} {w' : World σ}
      (hasked : Course backend combiner dir w [queryEvent g deadline (.ok (some path))] w') :
      ReachabilityCourse backend combiner dir horizonEnd deadline g searchDelay onInfeasible w
        (.ok (.feasible path)) w'
  | assumed {w' : World σ} (hassumed : searchDelay = false)
      (hprobing : Probing backend combiner dir g onInfeasible w [(deadline, false)] w') :
      ReachabilityCourse backend combiner dir horizonEnd deadline g searchDelay onInfeasible w
        (.ok (.delayAssumed (.ofDeadline deadline))) w'
  /-- The smallest feasible deadline is found, or no deadline in the horizon is feasible. -/
  | searched {asked : Answers} {b : DelayBounds} {w' : World σ} (hsearch : searchDelay = true)
      (hprobing : Probing backend combiner dir g onInfeasible w ((deadline, false) :: asked) w')
      (hnarrows : Narrows horizonEnd (.ofDeadline deadline) asked b)
      (hfound : b.upper = some (b.lower + 1) ∨ b.upper = none ∧ b.lower = horizonEnd) :
      ReachabilityCourse backend combiner dir horizonEnd deadline g searchDelay onInfeasible w
        (.ok (.infeasible b)) w'
  /-- A question about a later deadline breaks off. -/
  | broken {asked : Answers} {b : DelayBounds} {later : Time} {stop : Stop CheckError}
      {m w' : World σ} (hsearch : searchDelay = true)
      (hprobing : Probing backend combiner dir g onInfeasible w ((deadline, false) :: asked) m)
      (hnarrows : Narrows horizonEnd (.ofDeadline deadline) asked b)
      (hbracket : b.Bracket horizonEnd later)
      (hbreaks : Breaks backend combiner dir g onInfeasible later m stop w') :
      ReachabilityCourse backend combiner dir horizonEnd deadline g searchDelay onInfeasible w
        (.error stop) w'
  /-- The gap between an infeasible and a feasible deadline is out of range. -/
  | wide {asked : Answers} {b : DelayBounds} {upper : Time} {f : Fault} {w' : World σ}
      (hsearch : searchDelay = true)
      (hprobing : Probing backend combiner dir g onInfeasible w ((deadline, false) :: asked) w')
      (hnarrows : Narrows horizonEnd (.ofDeadline deadline) asked b)
      (hupper : b.upper = some upper) (hgap : Time.sub upper b.lower = .error f) :
      ReachabilityCourse backend combiner dir horizonEnd deadline g searchDelay onInfeasible w
        (.error (.fault f)) w'

section Session

variable {combiner : Combiner σ} {searchDelay : Bool} {onInfeasible : Time → Check σ Unit}
  {asked : Answers} {b : DelayBounds} {m : World σ}

/-- Probes that narrow the bounds belong to the session about the task. -/
theorem Probed.probing_of_narrows (dir : String)
    (ht : t ∈ s.units.tasks) (hcount : counts.get t.unit t.name < maxCount)
    (h : Probed (probeRecorded backend s counts t onInfeasible) w asked m)
    (hnarrows : Narrows s.horizon.closes (.ofDeadline t.deadline) asked b)
    (hsilent : Course backend combiner dir m [] w') :
    Probing backend combiner dir (counts.targetOf t) onInfeasible w asked w' := by
  have hwithin : ∀ p ∈ asked, t.deadline ≤ p.1 ∧ p.1 ≤ s.horizon.closes := by
    intro p hp
    obtain ⟨hlower, hhorizon⟩ := hnarrows.lt_and_le_of_mem hp
    exact ⟨Int.le_of_lt hlower, hhorizon⟩
  have hprobing := Probed.probing dir ht hcount h hwithin (.nil hsilent)
  rwa [List.append_nil] at hprobing

/-- What a session does after the question about the deadline of the task: it runs both phases of
the search, and reports if there is nothing to halve. -/
def phases (probe : Time → Check σ Bool) (horizonEnd : Time) (text : String) (b : DelayBounds) :
    Check σ Reachability := do
  let b ← exponentialSearch probe horizonEnd b
  if b.upper.isNone then
    warn text
    return .infeasible b
  else return .infeasible (← binarySearch probe b)

theorem ends_phases_ok {probe : Time → Check σ Bool} {horizonEnd : Time} {text : String}
    {found : Reachability} (h : Ends (phases probe horizonEnd text b) w (.ok found) w') :
    ∃ b' m, Ends (exponentialSearch probe horizonEnd b >>= binarySearch probe) w (.ok b') m ∧
      found = .infeasible b' ∧ ∃ reports, w' = m.logged reports := by
  obtain ⟨b', m, hfirst, hsecond⟩ := ends_bind_ok.1 h
  split at hsecond
  · next hnone =>
      rw [ends_warn_bind] at hsecond
      obtain ⟨hfound, rfl⟩ := ends_pure_ok.1 hsecond
      have hhalving : Ends (binarySearch probe b') m (.ok b') m := by
        unfold binarySearch
        rw [Option.isNone_iff_eq_none.1 hnone]
        exact ends_pure.2 ⟨rfl, rfl⟩
      exact ⟨b', m, ends_bind_ok.2 ⟨b', m, hfirst, hhalving⟩, hfound, _, rfl⟩
  · obtain ⟨b'', m', hhalving, hlast⟩ := ends_bind_ok.1 hsecond
    obtain ⟨hfound, rfl⟩ := ends_pure_ok.1 hlast
    exact ⟨b'', _, ends_bind_ok.2 ⟨b', m, hfirst, hhalving⟩, hfound, [],
      (World.logged_nil _).symm⟩

theorem ends_phases_error {probe : Time → Check σ Bool} {horizonEnd : Time} {text : String}
    {stop : Stop CheckError} (h : Ends (phases probe horizonEnd text b) w (.error stop) w') :
    Ends (exponentialSearch probe horizonEnd b >>= binarySearch probe) w (.error stop) w' := by
  refine ends_bind_error.2 ?_
  rcases ends_bind_error.1 h with ⟨b', m, hfirst, hsecond⟩ | hfirst
  · split at hsecond
    · rw [ends_warn_bind] at hsecond
      exact absurd (ends_pure.1 hsecond).1 (by simp)
    · rcases ends_bind_error.1 hsecond with ⟨b'', m', hhalving, hlast⟩ | hhalving
      · exact absurd (ends_pure.1 hlast).1 (by simp)
      · exact .inl ⟨b', m, hfirst, hhalving⟩
  · exact .inr hfirst

/-- Every session has a course. -/
theorem reachability_course (combiner : Combiner σ) (dir : String)
    {r : Except (Stop CheckError) Reachability}
    (ht : t ∈ s.units.tasks) (hcount : counts.get t.unit t.name < maxCount)
    (h : Ends (reachability backend s counts t searchDelay onInfeasible) w r w') :
    ReachabilityCourse backend combiner dir s.horizon.closes t.deadline (counts.targetOf t)
      searchDelay onInfeasible w r w' := by
  have hhorizon : t.deadline ≤ s.horizon.closes := (s.fitsIn t ht).2
  unfold reachability at h
  rcases ends_bind.1 h with ⟨path, m, hprobe, hnext⟩ | ⟨stop, rfl, hprobe⟩
  · have hasked := probe_course_ok combiner dir ht hcount (Int.le_refl _) hhorizon hprobe
    cases path with
    | some path =>
        dsimp only at hnext
        rw [ends_info_bind] at hnext
        obtain ⟨rfl, rfl⟩ := ends_pure.1 hnext
        exact .feasible (hasked.thenLogged _)
    | none =>
        dsimp only at hnext
        rw [ends_info_bind] at hnext
        have hlogged {reports : Log} := hasked.thenLogged reports
        rcases ends_bind.1 hnext with ⟨_, m', hheard, hrest⟩ | ⟨stop, rfl, hheard⟩
        · cases searchDelay with
          | false =>
              obtain ⟨rfl, rfl⟩ := ends_pure.1 hrest
              exact .assumed rfl (.infeasible hlogged hheard (.nil (.nil _)))
          | true =>
              have hprobing {asked : Answers} {b : DelayBounds} {m₁ w' : World σ}
                  (hprobed : Probed (probeRecorded backend s counts t onInfeasible) m' asked m₁)
                  (hnarrows : Narrows s.horizon.closes (.ofDeadline t.deadline) asked b)
                  (hsilent : Course backend combiner dir m₁ [] w') :=
                Probing.infeasible hlogged hheard
                  (Probed.probing_of_narrows dir ht hcount hprobed hnarrows hsilent)
              cases r with
              | ok found =>
                  obtain ⟨b, m₂, hphases, rfl, reports, rfl⟩ := ends_phases_ok hrest
                  obtain ⟨asked, b', m₁, hprobed, hnarrows, hends⟩ :=
                    delaySearch_course hhorizon rfl hphases
                  cases hends with
                  | found hfound =>
                      exact .searched rfl (hprobing hprobed hnarrows (.logged _ _)) hnarrows hfound
              | error stop =>
                  obtain ⟨asked, b', m₁, hprobed, hnarrows, hends⟩ :=
                    delaySearch_course hhorizon rfl (ends_phases_error hrest)
                  have hbefore := hprobing hprobed hnarrows (.nil m₁)
                  cases hends with
                  | broken hbracket hprobe =>
                      have hlate := Int.le_trans hnarrows.lower_le (Int.le_of_lt hbracket.1)
                      exact .broken rfl hbefore hnarrows hbracket
                        (probeRecorded_ends dir ht hcount hlate hbracket.2.1 hprobe)
                  | wide hupper hgap => exact .wide rfl hbefore hnarrows hupper hgap
        · exact .undecided (.unheard hlogged hheard)
  · obtain ⟨e, rfl, hasked⟩ :=
      probe_course_error combiner dir ht hcount (Int.le_refl _) hhorizon hprobe
    exact .undecided (.unanswered hasked)

end Session

end Punctual.Check
