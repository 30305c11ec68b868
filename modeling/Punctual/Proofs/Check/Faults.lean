import Punctual.Proofs.Check.DelayRange
import Punctual.Proofs.Check.Heuristic
import Punctual.Proofs.Check.Interference

/-!
# Faults of a check

A check computes with times and counts that fit their ranges, and breaks off with a fault where a
result does not. `FaultCause` lists all reasons for that. Two of them lie in the search for the
delay: the delay after an infeasible deadline, and the gap between an infeasible and a feasible one.
The deadlines that the search asks about are never out of range, since they lie between the deadline
of the task and the end of the horizon.

Nothing but the distance of these two decides whether the search is at fault
(`faults_of_check`): a distance in range makes all delays and gaps fit, and a distance out of range
is a fault of every check whose task is not feasible within the horizon.
-/

namespace Punctual

variable {σ : Type}

namespace Check

section Session

variable {backend : Backend σ} {r : Recorder} {g : Target} {asked : Answers} {es : List Event}
  {deadline later : Time} {xs ys : List Exchange}

/-- If a target can never be completed, no question about it is answered with a path. -/
theorem Decides.not_answered {path : String} (hdecides : Decides backend g ∅)
    (hbacked : Backed backend xs) : ¬ Answered xs g deadline (some path) := by
  intro hasked
  obtain ⟨s, s', hends⟩ := hbacked _ _ hasked
  obtain ⟨path', after, hanswer, hpath⟩ := hdecides.answers deadline s
  obtain rfl := Except.ok.inj (hends.unique hanswer).1
  simp at hpath

/-- All questions are about deadlines from the first one to the last one. -/
def AsksWithin (g : Target) (first last : Time) (xs : List Exchange) : Prop :=
  ∀ target answer, .query target answer ∈ xs →
    ∃ deadline, target = g.reachedBy deadline ∧ first ≤ deadline ∧ deadline ≤ last

theorem AsksWithin.append {first last : Time} (h : AsksWithin g first last xs)
    (h' : AsksWithin g first last ys) : AsksWithin g first last (xs ++ ys) := by
  intro target answer hasked
  rcases List.mem_append.1 hasked with hleft | hright
  · exact h target answer hleft
  · exact h' target answer hright

theorem asksWithin_of_runs {first last : Time}
    (h : ∀ x ∈ xs, ∃ model n timeout answer, x = .run model n timeout answer) :
    AsksWithin g first last xs := by
  intro target answer hasked
  obtain ⟨model, n, timeout, answer, heq⟩ := h _ hasked
  simp at heq

theorem asksWithin_queryEvent {first last : Time} (hfirst : first ≤ deadline)
    (hlast : deadline ≤ last) (answer : Except SolverError (Option String)) :
    AsksWithin g first last [.query (g.reachedBy deadline) answer] := by
  intro target answer' hasked
  obtain ⟨rfl, -⟩ := Exchange.query.inj (List.mem_singleton.1 hasked)
  exact ⟨deadline, rfl, hfirst, hlast⟩

theorem Recorded.asksWithin {first last : Time} (h : Recorded r g asked es)
    (hwithin : ∀ p ∈ asked, first ≤ p.1 ∧ p.1 ≤ last) :
    AsksWithin g first last (Event.exchanges es) := by
  induction h with
  | nil => exact asksWithin_of_runs (by simp)
  | feasible path _ ih =>
      obtain ⟨hfirst, hlast⟩ := hwithin _ List.mem_cons_self
      have hrest := ih fun p hp => hwithin p (List.mem_cons_of_mem _ hp)
      exact (asksWithin_queryEvent hfirst hlast _).append hrest
  | infeasible hdelay _ ih =>
      obtain ⟨hfirst, hlast⟩ := hwithin _ List.mem_cons_self
      have hrest := ih fun p hp => hwithin p (List.mem_cons_of_mem _ hp)
      exact (asksWithin_queryEvent hfirst hlast _).append hrest

theorem Stopped.asksWithin {first last : Time} {stop : Stop CheckError}
    (h : Stopped r g deadline es stop) (hfirst : first ≤ deadline) (hlast : deadline ≤ last) :
    AsksWithin g first last (Event.exchanges es) := by
  cases h with
  | unanswered e => exact asksWithin_queryEvent hfirst hlast _
  | unrecorded hfault => exact asksWithin_queryEvent hfirst hlast _
  | unwritten e hdelay => exact asksWithin_queryEvent hfirst hlast _

theorem Narrowing.asksWithin {b : DelayBounds} (h : Narrowing r g deadline asked b es)
    (hwithin : deadline ≤ r.horizon.closes) :
    AsksWithin g deadline r.horizon.closes (Event.exchanges es) := by
  refine h.recorded.asksWithin ?_
  intro p hp
  rcases List.mem_cons.1 hp with rfl | hlater
  · exact ⟨Int.le_refl _, hwithin⟩
  · obtain ⟨hafter, hlast⟩ := h.narrows.lt_and_le_of_mem hlater
    exact ⟨Int.le_of_lt hafter, hlast⟩

/-- A question breaks off with a fault only if the delay after its deadline is out of range. -/
theorem Stopped.not_fits {f : Fault} (h : Stopped r g later es (.fault f))
    (hlate : r.task.deadline ≤ later) :
    Answered (Event.exchanges es) g later none ∧ ¬ Time.Fits (later - r.task.deadline + 1) := by
  cases h with
  | unrecorded hfault =>
      exact ⟨List.mem_cons_self, Recorder.not_fits_of_delayAfter hlate hfault⟩

end Session

end Check

namespace Checker

open Check

/-! ## Causes -/

/-- Why a check of a task, with some tasks in front of it, breaks off with a fault. -/
inductive FaultCause (c : Checker σ) (horizonEnd : Time) (g : Target) (earlier : List Task)
    (t : Task) (xs : List Exchange) : Prop
  /-- The tasks up to this one are too many to be counted. -/
  | count (hmany : Overcounted (earlier ++ [t]))
  /-- The multiple of the time that a refutation took is no duration. -/
  | extension {model : String} {n : Nat} {timeout elapsed : Duration} {answer : BmcAnswer}
      {f : Fault} (hrun : .run model n timeout (.ok answer) ∈ xs)
      (helapsed : answer.elapsed = some elapsed) (hreported : completions xs ≠ [])
      (hscale : elapsed.scale c.options.bmc.timeoutFactor = .error f)
  /-- The delay of the timeout heuristic is out of range. -/
  | heuristic {time : Time} (htrust : c.options.trustHeuristic = true)
      (hleast : (completions xs).min? = some time) (hlate : t.deadline < time)
      (hwide : ¬ Time.Fits (time - t.deadline))
  /-- The delay after an infeasible deadline is out of range. -/
  | delay {lower : Time} (hlower : t.deadline ≤ lower) (hwithin : lower ≤ horizonEnd)
      (hinfeasible : Answered xs g lower none)
      (hwide : ¬ Time.Fits (lower - t.deadline + 1))
  /-- The gap between an infeasible and a feasible deadline is out of range. -/
  | gap {lower upper : Time} {path : String} (hlower : t.deadline ≤ lower) (hlt : lower < upper)
      (hwithin : upper ≤ horizonEnd) (hinfeasible : Answered xs g lower none)
      (hfeasible : Answered xs g upper (some path)) (hwide : ¬ Time.Fits (upper - lower))

section Causes

variable {c : Checker σ} {r : Recorder} {g : Target} {earlier : List Task} {t : Task}
  {xs : List Exchange} {es : List Event} {horizonEnd : Time} {f : Fault}

/-- If the distance from the deadline to the end of the horizon is in range, the schedule causes no
fault of a search for the delay; and none of the heuristic if the deadline is not negative. -/
theorem FaultCause.not_of_fits (h : FaultCause c horizonEnd g earlier t xs)
    (hgap : Time.Fits (horizonEnd - t.deadline + 1))
    (hdeadline : c.options.trustHeuristic = true → 0 ≤ t.deadline)
    (hcount : ¬ Overcounted (earlier ++ [t])) :
    ∃ model n timeout answer elapsed f, .run model n timeout (.ok answer) ∈ xs ∧
      answer.elapsed = some elapsed ∧ elapsed.scale c.options.bmc.timeoutFactor = .error f := by
  cases h with
  | count hmany => exact absurd hmany hcount
  | extension hrun helapsed _ hscale => exact ⟨_, _, _, _, _, _, hrun, helapsed, hscale⟩
  | @heuristic time htrust hleast hlate hwide =>
      refine absurd ?_ hwide
      have hnonneg := hdeadline htrust
      obtain ⟨-, hfits⟩ := nonneg_of_mem_completions (List.min?_mem hleast)
      exact hfits.of_le (Int.sub_nonneg.2 (Int.le_of_lt hlate)) (Int.sub_le_self time hnonneg)
  | delay hlower hwithin _ hwide => exact absurd (fits_delay hlower hwithin hgap) hwide
  | gap hlower hlt hwithin _ _ hwide => exact absurd (fits_gap hlower hlt hwithin hgap) hwide

/-- A session is at fault for a delay or a gap. -/
theorem Decided.faultCause (h : Decided c r g t es (.error (.fault f))) (htask : r.task = t)
    (hwithin : t.deadline ≤ r.horizon.closes) (hxs : ∀ x ∈ Event.exchanges es, x ∈ xs) :
    FaultCause c r.horizon.closes g earlier t xs := by
  subst htask
  cases h with
  | undecided hstopped =>
      obtain ⟨hasked, hwide⟩ := hstopped.not_fits (Int.le_refl _)
      exact .delay (Int.le_refl _) hwithin (hxs _ hasked) hwide
  | @broken es es' asked b later _ hnarrowing hbracket hstopped =>
      have hlate : r.task.deadline ≤ later :=
        Int.le_of_lt (Int.lt_of_le_of_lt hnarrowing.narrows.lower_le hbracket.1)
      obtain ⟨hasked, hwide⟩ := hstopped.not_fits hlate
      refine .delay hlate hbracket.2.1 (hxs _ ?_) hwide
      rw [Event.exchanges_append]
      exact List.mem_append_right _ hasked
  | @wide es asked b upper _ hnarrowing hupper hgap =>
      have hin := hnarrowing.narrows.within ⟨hwithin, by rintro u ⟨⟩⟩
      obtain ⟨path, hfeasible⟩ := hnarrowing.answered_upper hupper
      refine .gap hnarrowing.narrows.lower_le (hin.2 _ hupper).1 (hin.2 _ hupper).2
        (hxs _ hnarrowing.answered_lower) (hxs _ hfeasible) fun hfits => ?_
      exact absurd (hgap.symm.trans (Time.sub_eq_ok_iff.2 ⟨rfl, hfits⟩)) (by simp)

theorem Decided.asksWithin {result : Except (Stop CheckError) Verdict}
    (h : Decided c r g t es result) (hwithin : t.deadline ≤ r.horizon.closes) :
    AsksWithin g t.deadline r.horizon.closes (Event.exchanges es) := by
  cases h with
  | undecided hstopped => exact hstopped.asksWithin (Int.le_refl _) hwithin
  | feasible path => exact asksWithin_queryEvent (Int.le_refl _) hwithin _
  | unwritten path e => exact asksWithin_queryEvent (Int.le_refl _) hwithin _
  | assumed hassumed hrecorded hdelay =>
      refine hrecorded.asksWithin ?_
      intro p hp
      rw [List.mem_singleton.1 hp]
      exact ⟨Int.le_refl _, hwithin⟩
  | delayed hnarrowing hupper hdelay => exact hnarrowing.asksWithin hwithin
  | hopeless hnarrowing hlower => exact hnarrowing.asksWithin hwithin
  | @broken es es' asked b later _ hnarrowing hbracket hstopped =>
      have hlate : t.deadline ≤ later :=
        Int.le_of_lt (Int.lt_of_le_of_lt hnarrowing.narrows.lower_le hbracket.1)
      rw [Event.exchanges_append]
      exact (hnarrowing.asksWithin hwithin).append (hstopped.asksWithin hlate hbracket.2.1)
  | wide hnarrowing hupper hgap => exact hnarrowing.asksWithin hwithin

/-- After a search that missed the deadline, the heuristic or a session is at fault. -/
theorem Inconclusive.faultCause {found : BmcSearch} {modelPath : String}
    (h : Inconclusive c r g t found modelPath es (.error (.fault f)))
    (hpoint : BmcSearch.IsPoint c.options.bmc g found)
    (hfound : found.finalTime = (completions xs).min?)
    (hmissed : found.meets t.deadline = false) (htask : r.task = t)
    (hwithin : t.deadline ≤ r.horizon.closes) :
    FaultCause c r.horizon.closes g earlier t (xs ++ Event.exchanges es) := by
  cases h with
  | unknown hfault =>
      rw [heuristicTime_eq hpoint] at hfault
      simp at hfault
  | @overlong time _ htime hfault =>
      obtain ⟨htrust, hfinal⟩ := (heuristicTime_eq_some_iff hpoint).1 htime
      have hleast := hfound.symm.trans hfinal
      have hmem := List.min?_mem hleast
      have hlate := late_of_missed hfound hmissed hmem
      obtain ⟨hnonneg, hfits⟩ := nonneg_of_mem_completions hmem
      have hdelay := hfault _ (Time.sub_one_eq_ok hnonneg hfits)
      rw [Event.exchanges_nil, List.append_nil]
      refine .heuristic htrust hleast hlate fun hrange => ?_
      exact absurd (hdelay.symm.trans ((delayAfter_of_late hlate).2 hrange)) (by simp)
  | @decided es' _ htime hfallback hdecided =>
      refine hdecided.faultCause htask hwithin ?_
      intro x hx
      simp [hx]

theorem Inconclusive.asksWithin {found : BmcSearch} {modelPath : String}
    {result : Except (Stop CheckError) Verdict}
    (h : Inconclusive c r g t found modelPath es result)
    (hwithin : t.deadline ≤ r.horizon.closes) :
    AsksWithin g t.deadline r.horizon.closes (Event.exchanges es) := by
  have hsession (answer : Except SolverError Unit) :
      AsksWithin g t.deadline r.horizon.closes [.session modelPath answer] := by
    intro target answer' hasked
    simp at hasked
  cases h with
  | unknown hfault => exact asksWithin_of_runs (by simp)
  | heuristic htime hlower hdelay => exact asksWithin_of_runs (by simp)
  | overlong htime hfault => exact asksWithin_of_runs (by simp)
  | unwritten e htime => exact asksWithin_of_runs (by simp)
  | undetermined htime hfallback => exact asksWithin_of_runs (by simp)
  | unopened e htime hfallback => exact hsession _
  | decided htime hfallback hdecided => exact (hsession _).append (hdecided.asksWithin hwithin)

/-- There is no next timeout only if a refutation took a time whose multiple is no duration. -/
theorem exists_scale_error {found : BmcSearch} {factor : Float}
    (h : found.extendTimeout factor = .error f) :
    ∃ d ∈ found.solveTimes, d.scale factor = .error f := by
  unfold BmcSearch.extendTimeout at h
  cases hlongest : Duration.longest? found.solveTimes with
  | none => simp [hlongest] at h
  | some longest =>
      rw [hlongest] at h
      dsimp only at h
      refine ⟨longest, Duration.mem_of_longest? hlongest, ?_⟩
      cases hscale : longest.scale factor with
      | ok next =>
          rw [hscale] at h
          simp at h
      | error f' =>
          rw [hscale] at h
          exact congrArg Except.error (Except.error.inj h)

/-- A search is at fault for the multiple of a duration. -/
theorem faultCause_of_search {model : String}
    (h : BmcSearch.SearchEvents c.dir c.options.bmc model g
      (.start c.options.bmc.baseTimeout) es (.error (.fault f))) :
    FaultCause c horizonEnd g earlier t (Event.exchanges es) := by
  obtain ⟨last, es₁, es₂, rfl, hsearching, hends⟩ := h
  cases hends with
  | @overlong answer time trace elapsed _ haccepts hmissed hfault =>
      obtain ⟨hcompletion, -, helapsed⟩ := BmcSearch.judge_eq_refuted_iff.1 haccepts.refuted
      obtain ⟨d, hd, hscale⟩ := exists_scale_error hfault
      have hlast : Exchange.run (BmcSearch.claimModel model (last.claim g)) c.options.bmc.bmcLength
          last.timeout (.ok answer) ∈ Event.exchanges
            (es₁ ++ last.runEvents c.options.bmc model g (.ok answer)) := by
        simp [BmcSearch.runEvents]
      have htime : time ∈ completions (Event.exchanges
          (es₁ ++ last.runEvents c.options.bmc model g (.ok answer))) :=
        List.mem_filterMap.2 ⟨_, hlast, hcompletion⟩
      have hreported := List.ne_nil_of_mem htime
      rcases List.mem_append.1 hd with hbefore | hnow
      · rcases hsearching.mem_solveTimes hbefore with hstart | ⟨text, timeout, answer', hd, hmem⟩
        · simp [BmcSearch.start] at hstart
        · have hrun := List.mem_append_left (Event.exchanges
            (last.runEvents c.options.bmc model g (.ok answer))) hmem
          rw [← Event.exchanges_append] at hrun
          exact .extension hrun hd hreported hscale
      · obtain rfl := List.mem_singleton.1 hnow
        exact .extension hlast helapsed hreported hscale

end Causes

/-! ## Checks once their model is combined -/

/-- The exchanges of a check once its model is combined, and the verdict. -/
inductive Concluded (c : Checker σ) (r : Recorder) (g : Target) (t : Task) :
    List Exchange → Except (Stop CheckError) Verdict → Prop
  /-- The model could not be written. -/
  | unwritten (e : CheckError) : Concluded c r g t [] (.error (.error e))
  /-- The search breaks off. -/
  | unsearched {es : List Event} {model : String} {stop : Stop CheckError}
      (hsearch : BmcSearch.SearchEvents c.dir c.options.bmc model g
        (.start c.options.bmc.baseTimeout) es (.error stop)) :
      Concluded c r g t (Event.exchanges es) (.error stop)
  | met {es : List Event} {model : String} {found : BmcSearch}
      {result : Except (Stop CheckError) Verdict}
      (hsearch : BmcSearch.SearchEvents c.dir c.options.bmc model g
        (.start c.options.bmc.baseTimeout) es (.ok found))
      (hmeets : found.meets t.deadline) (hfaultless : ∀ f, result ≠ .error (.fault f)) :
      Concluded c r g t (Event.exchanges es) result
  | inconclusive {es₁ es₂ : List Event} {model modelPath : String} {found : BmcSearch}
      {result : Except (Stop CheckError) Verdict}
      (hsearch : BmcSearch.SearchEvents c.dir c.options.bmc model g
        (.start c.options.bmc.baseTimeout) es₁ (.ok found))
      (hmissed : found.meets t.deadline = false)
      (hinconclusive : Inconclusive c r g t found modelPath es₂ result) :
      Concluded c r g t (Event.exchanges es₁ ++ Event.exchanges es₂) result

section Concluded

variable {c : Checker σ} {s : Schedule} {state : PlantState} {p : Prepared} {r : Recorder}
  {g : Target} {earlier : List Task} {t : Task} {xs : List Exchange} {w w' : World σ}
  {result : Except (Stop CheckError) Verdict}

/-- Once the task is completed in time, only files are written. -/
theorem harmless_judgeSearch {counts : Counts} {path : String} {found : BmcSearch}
    (hmeets : found.meets t.deadline) :
    Harmless (c.judgeSearch s state counts t path found) := by
  unfold judgeSearch
  rw [if_pos hmeets]
  have hrest : Harmless (do
      Check.info ("Task " ++ t.text ++ " meets its deadline (bounded model checking)")
      return .feasible t found.finalTime .bmc : Check σ Verdict) :=
    (harmless_report _ _).bind fun _ => harmless_pure _
  cases found.counterexample with
  | none => exact hrest
  | some trace => exact (harmless_write _ _ _).bind fun _ => hrest

theorem concluded_of_conclude (ht : p.task ∈ s.units.tasks)
    (hcount : p.counts.get p.task.unit p.task.name < maxCount)
    (htarget : p.target = p.counts.targetOf p.task)
    (h : Ends (c.conclude s state p) w result w') :
    ∃ xs, w'.exchanges = w.exchanges ++ xs ∧ Backed c.backend xs ∧
      Concluded c (.ofTask c.dir s state p.task) p.target p.task xs result := by
  rcases ends_bind.1 h with ⟨path, m, hwrite, h⟩ | ⟨stop, rfl, hwrite⟩
  · have hsilent : m.exchanges = w.exchanges := (harmless_write _ _ _).silent _ _ _ hwrite
    rw [ends_info_bind] at h
    rcases ends_bind.1 h with ⟨found, m₁, hsearch, hjudge⟩ | ⟨stop, rfl, hsearch⟩
    · obtain ⟨es, hevents, hcourse⟩ := BmcSearch.search_course c.combiner hsearch
      have hsearched : m₁.exchanges = w.exchanges ++ Event.exchanges es :=
        hcourse.exchanges_eq.trans (congrArg (· ++ _) hsilent)
      cases hmeets : found.meets p.task.deadline with
      | true =>
          have hharmless : Harmless (c.judgeSearch s state p.counts p.task path found) :=
            harmless_judgeSearch hmeets
          refine ⟨_, (hharmless.silent _ _ _ hjudge).trans hsearched, backed_of_course hcourse,
            .met hevents hmeets fun f hf => ?_⟩
          subst hf
          exact hharmless.faultless _ _ _ hjudge
      | false =>
          obtain ⟨es', hcourse', hinconclusive⟩ := decideInconclusive_course ht hcount
            (ends_decideInconclusive hmeets hjudge)
          rw [← htarget] at hinconclusive
          refine ⟨_, ?_, (backed_of_course hcourse).append (backed_of_course hcourse'),
            .inconclusive hevents hmeets hinconclusive⟩
          rw [hcourse'.exchanges_eq, hsearched, List.append_assoc]
    · obtain ⟨es, hevents, hcourse⟩ := BmcSearch.search_course c.combiner hsearch
      exact ⟨_, hcourse.exchanges_eq.trans (congrArg (· ++ _) hsilent), backed_of_course hcourse,
        .unsearched hevents⟩
  · obtain ⟨⟨e, rfl⟩, rfl⟩ := ends_write_error hwrite
    exact ⟨[], (List.append_nil _).symm, by simp [Backed], .unwritten _⟩

theorem Concluded.faultCause {f : Fault} (h : Concluded c r g t xs (.error (.fault f)))
    (hdeadline : g.deadline = t.deadline) (htask : r.task = t)
    (hwithin : t.deadline ≤ r.horizon.closes) :
    FaultCause c r.horizon.closes g earlier t xs := by
  cases h with
  | unsearched hsearch => exact faultCause_of_search hsearch
  | met hsearch hmeets hfaultless => exact absurd rfl (hfaultless f)
  | inconclusive hsearch hmissed hinconclusive =>
      have hpoint := hsearch.isPoint_of_missed (by rwa [hdeadline])
      exact hinconclusive.faultCause hpoint hsearch.finalTime_eq hmissed htask hwithin

theorem Concluded.asksWithin (h : Concluded c r g t xs result)
    (hwithin : t.deadline ≤ r.horizon.closes) :
    AsksWithin g t.deadline r.horizon.closes xs := by
  cases h with
  | unwritten e => exact asksWithin_of_runs (by simp)
  | unsearched hsearch => exact asksWithin_of_runs (runs_of_search hsearch)
  | met hsearch hmeets hfaultless => exact asksWithin_of_runs (runs_of_search hsearch)
  | inconclusive hsearch hmissed hinconclusive =>
      exact (asksWithin_of_runs (runs_of_search hsearch)).append (hinconclusive.asksWithin hwithin)

/-- If no completion is reported and no deadline is feasible, a check that comes to a verdict finds
that the end of the horizon is infeasible, and has recorded the delay after it. -/
theorem Concluded.hopeless {v : Verdict} (h : Concluded c r g t xs (.ok v))
    (hdeadline : g.deadline = t.deadline) (htask : r.task = t)
    (hwithin : t.deadline ≤ r.horizon.closes) (hbacked : Backed c.backend xs)
    (hdecides : Decides c.backend g ∅) (hfallback : c.options.fallback = true)
    (hsearch : c.options.debugArgs.contains .simpleDelay = false) (hnone : completions xs = []) :
    v = .infeasible t none .fullMc ∧ Time.Fits (r.horizon.closes - t.deadline + 1) := by
  cases h with
  | @met es model found _ hsearched hmeets hfaultless =>
      have hleast : found.finalTime = none := by
        rw [hsearched.finalTime_eq]
        simp [BmcSearch.start, hnone]
      rw [BmcSearch.meets, hleast] at hmeets
      simp at hmeets
  | @inconclusive es₁ es₂ model modelPath found _ hsearched hmissed hinconclusive =>
      have hpoint := hsearched.isPoint_of_missed (by rwa [hdeadline])
      obtain ⟨-, hjustified, -⟩ := hinconclusive.justified hpoint hsearched.finalTime_eq hmissed
        (noSession_of_search hsearched)
      have hunaccepted {time : Time} :
          ¬ Accepted (Event.exchanges es₁ ++ Event.exchanges es₂) time := by
        intro haccepted
        have hmem := haccepted.mem
        rw [hnone] at hmem
        simp at hmem
      cases hjustified with
      | completed haccepted _ => exact absurd haccepted hunaccepted
      | reached hasked => exact absurd hasked (hdecides.not_answered hbacked)
      | trusted _ haccepted _ => exact absurd haccepted hunaccepted
      | disabled hdisabled =>
          rw [hfallback] at hdisabled
          simp at hdisabled
      | unreachable hproof hasked =>
          have hground := hinconclusive.delayGround hpoint hsearched.finalTime_eq hmissed htask
            hwithin
          cases hground with
          | bounded _ _ _ hfeasible => exact absurd hfeasible (hdecides.not_answered hbacked)
          | hopeless _ hfits => exact ⟨rfl, hfits⟩
          | reported _ _ hleast =>
              rw [hnone] at hleast
              simp at hleast
          | assumed hassumed _ =>
              rw [hsearch] at hassumed
              simp at hassumed

end Concluded

/-! ## Preparations at fault -/

section Preparation

variable {c : Checker σ} {s : Schedule} {state : PlantState} {counts : Counts}
  {earlier : List Task} {t : Task} {f : Fault} {w w' : World σ}

theorem overcounted_of_ofTasks (h : Counts.ofTasks earlier = .error f) :
    Overcounted (earlier ++ [t]) := by
  rcases counts_or_overcounted earlier with ⟨counts, hcounts⟩ | ⟨u, hu, hmany⟩
  · exact absurd (h.symm.trans hcounts) (by simp)
  · refine ⟨u, List.mem_append_left _ hu, ?_⟩
    rw [List.countP_append]
    exact Nat.lt_add_right _ hmany

theorem overcounted_of_not_lt (hcounts : Counts.ofTasks earlier = .ok counts)
    (h : ¬ counts.get t.unit t.name < maxCount) : Overcounted (earlier ++ [t]) := by
  refine ⟨t, List.mem_append_right _ List.mem_cons_self, ?_⟩
  rw [Counts.get_ofTasks hcounts] at h
  rw [List.countP_append, List.countP_cons_of_pos (by simp)]
  exact Nat.lt_succ_of_le (Nat.not_lt.1 h)

/-- The specification of a task is at fault only if the task cannot be counted once more. -/
theorem not_lt_of_ends_specified (hfits : t.window.FitsIn s.horizon)
    (h : Ends (specified s counts t : Check σ _) w (.error (.fault f)) w') :
    ¬ counts.get t.unit t.name < maxCount := by
  intro hcount
  obtain ⟨sub, hsub, hordered⟩ := Schedule.single_eq_ok hfits
  obtain ⟨spec, hspec, htarget⟩ := DeadlineSpec.ofSchedule_of_ordered hordered hcount
  unfold specified at h
  rw [hsub, ends_derived_bind] at h
  obtain ⟨reports, hnext⟩ := ends_specify_bind hspec h
  rw [htarget] at hnext
  exact absurd (ends_pure.1 hnext).1 (by simp)

theorem not_lt_of_ends_prepareTask (hfits : t.window.FitsIn s.horizon)
    (h : Ends (c.prepareTask s state counts t) w (.error (.fault f)) w') :
    ¬ counts.get t.unit t.name < maxCount := by
  rcases ends_bind_error.1 h with ⟨specified, m, -, hrest⟩ | hspecified
  · have hharmless : Harmless (do
        let model ← combination c.combiner c.options.combine c.metadata c.dir specified.1 state t
        return ⟨counts, t, specified.2, model⟩ : Check σ Prepared) :=
      (harmless_combination _ _ _ _ _ _ _).bind fun _ => harmless_pure _
    exact absurd hrest (hharmless.faultless _ _ _)
  · exact not_lt_of_ends_specified hfits hspecified

/-- A preparation is at fault only if the tasks before the selected one and this one itself cannot
be counted. -/
theorem overcounted_of_prepare (h : Ends (c.prepare s state) w (.error (.fault f)) w') :
    ∃ earlier t, s.Selects state.time c.options.keyUnit earlier t ∧
      Overcounted (earlier ++ [t]) := by
  rcases ends_bind_error.1 h with ⟨path, m, -, h⟩ | hwrite
  · cases hselect : select s.ordered state.time c.options.keyUnit with
    | none =>
        rw [hselect] at h
        exact absurd h (((harmless_report _ _).bind fun _ => harmless_pure _).faultless _ _ _)
    | some selected =>
        obtain ⟨i, t, active⟩ := selected
        have hselects := selects_of_select hselect
        refine ⟨_, t, hselects, ?_⟩
        rw [hselect] at h
        obtain ⟨reports, h⟩ := ends_warn_if_bind h
        rw [ends_info_bind] at h
        rcases ends_ofFault_bind.1 h with ⟨counts, hcounts, h⟩ | ⟨f', hfault, -⟩
        · rcases ends_bind_error.1 h with ⟨prepared, m', -, hlast⟩ | hprepared
          · exact absurd hlast ((harmless_pure _).faultless _ _ _)
          · have hfits := s.fitsIn t hselects.mem
            exact overcounted_of_not_lt hcounts (not_lt_of_ends_prepareTask hfits hprepared)
        · exact overcounted_of_ofTasks hfault
  · exact absurd hwrite ((harmless_write _ _ _).faultless _ _ _)

end Preparation

/-! ## Whole checks -/

/-- How the numbers of a schedule bear on the check of a task that ends with a result. -/
structure Arithmetic (c : Checker σ) (s : Schedule) (earlier : List Task) (t : Task)
    (xs : List Exchange) (result : Except (Stop CheckError) Verdict) : Prop where
  /-- All deadlines that are asked about lie within the horizon. -/
  within : AsksWithin (Schedule.occurrence earlier t) t.deadline s.horizon.closes xs
  /-- Every fault has a cause. -/
  cause : ∀ f, result = .error (.fault f) →
    FaultCause c s.horizon.closes (Schedule.occurrence earlier t) earlier t xs
  /-- There is no fault if the horizon ends within range of the deadline, which is not negative if
  the heuristic is trusted, and if counts and timeouts are in range. -/
  safe : Time.Fits (s.horizon.closes - t.deadline + 1) →
    (c.options.trustHeuristic = true → 0 ≤ t.deadline) → ¬ Overcounted (earlier ++ [t]) →
    (∀ model n timeout answer elapsed, .run model n timeout (.ok answer) ∈ xs →
      answer.elapsed = some elapsed →
        ∃ next, elapsed.scale c.options.bmc.timeoutFactor = .ok next) →
    ∀ f, result ≠ .error (.fault f)
  /-- If the task can never be completed, the range decides whether there is a fault. -/
  exact : Decides c.backend (Schedule.occurrence earlier t) ∅ → completions xs = [] →
    c.options.fallback = true → c.options.debugArgs.contains .simpleDelay = false →
    ¬ Overcounted (earlier ++ [t]) → (∀ e, result ≠ .error (.error e)) →
    (Time.Fits (s.horizon.closes - t.deadline + 1) →
      result = .ok (.infeasible t none .fullMc)) ∧
    (¬ Time.Fits (s.horizon.closes - t.deadline + 1) → ∃ f, result = .error (.fault f))

section Check

variable {c : Checker σ} {s : Schedule} {state : PlantState} {earlier : List Task} {t : Task}
  {xs : List Exchange} {w w' : World σ} {result : Except (Stop CheckError) Verdict}

/-- A preparation that breaks off asks nothing. -/
theorem arithmetic_of_unprepared {stop : Stop CheckError}
    (hmany : ∀ f, stop = .fault f → Overcounted (earlier ++ [t])) :
    Arithmetic c s earlier t [] (.error stop) := by
  refine ⟨asksWithin_of_runs (by simp), ?_, ?_, ?_⟩
  · rintro f ⟨⟩
    exact .count (hmany f rfl)
  · rintro - - hcount - f ⟨⟩
    exact hcount (hmany f rfl)
  · intro _ _ _ _ hcount hcompleted
    cases stop with
    | error e => exact absurd rfl (hcompleted e)
    | fault f => exact absurd (hmany f rfl) hcount

theorem arithmetic_of_concluded (hselects : s.Selects state.time c.options.keyUnit earlier t)
    (hbacked : Backed c.backend xs)
    (h : Concluded c (.ofTask c.dir s state t) (Schedule.occurrence earlier t) t xs result) :
    Arithmetic c s earlier t xs result := by
  have hwithin : t.deadline ≤ s.horizon.closes := (s.fitsIn t hselects.mem).2
  have hcause (f : Fault) (hf : result = .error (.fault f)) :
      FaultCause c s.horizon.closes (Schedule.occurrence earlier t) earlier t xs := by
    subst hf
    exact h.faultCause rfl rfl hwithin
  refine ⟨h.asksWithin hwithin, hcause, ?_, ?_⟩
  · intro hgap hdeadline hcount hscale f hf
    obtain ⟨model, n, timeout, answer, elapsed, f', hrun, helapsed, hfault⟩ :=
      (hcause f hf).not_of_fits hgap hdeadline hcount
    obtain ⟨next, hnext⟩ := hscale _ _ _ _ _ hrun helapsed
    exact absurd (hfault.symm.trans hnext) (by simp)
  · intro hdecides hnone hfallback hsearch hcount hcompleted
    cases result with
    | ok v =>
        obtain ⟨rfl, hfits⟩ :=
          h.hopeless rfl rfl hwithin hbacked hdecides hfallback hsearch hnone
        exact ⟨fun _ => rfl, fun hwide => absurd hfits hwide⟩
    | error stop =>
        cases stop with
        | error e => exact absurd rfl (hcompleted e)
        | fault f =>
            refine ⟨fun hfits => ?_, fun _ => ⟨f, rfl⟩⟩
            cases hcause f rfl with
            | count hmany => exact absurd hmany hcount
            | extension _ _ hreported _ => exact absurd hnone hreported
            | heuristic _ hleast _ _ =>
                rw [hnone] at hleast
                simp at hleast
            | delay hlower hwithin _ hwide => exact absurd (fits_delay hlower hwithin hfits) hwide
            | gap hlower hlt hwithin _ _ hwide =>
                exact absurd (fits_gap hlower hlt hwithin hfits) hwide

/-- If a check has a candidate, it selects a task. -/
theorem exists_selects_or_none (s : Schedule) (now : Time) (unit : Option String) :
    (∃ earlier t, s.Selects now unit earlier t) ∨
      ∀ t ∈ s.units.tasks, ¬ Schedule.isCandidate now unit t := by
  cases hselect : select s.ordered now unit with
  | none => exact .inr (select_eq_none_iff.1 hselect)
  | some selected =>
      obtain ⟨i, t, active⟩ := selected
      exact .inl ⟨_, t, selects_of_select hselect⟩

/-- Every fault of a check has a cause: too many tasks, the multiple of a duration, the delay of the
heuristic, or the delay search, whose deadlines are in range but whose delays and gaps need not be.
They are in range if the distance from the deadline to the end of the horizon is, and if the task
can never be completed, the delay search is at fault exactly if this distance is not. -/
theorem faults_of_check (h : Ends (c.check s state) w result w') :
    ∃ xs, w'.exchanges = w.exchanges ++ xs ∧
      ((∀ t ∈ s.units.tasks, ¬ Schedule.isCandidate state.time c.options.keyUnit t) ∧
          (∀ f, result ≠ .error (.fault f)) ∨
        ∃ earlier t, s.Selects state.time c.options.keyUnit earlier t ∧
          Arithmetic c s earlier t xs result) := by
  have hcheck := h
  rw [check_eq] at hcheck
  rcases ends_bind.1 hcheck with ⟨prepared, m, hprepared, hrest⟩ | ⟨stop, rfl, hstopped⟩
  · have hsilent : m.exchanges = w.exchanges := silent_prepare c s state _ _ _ hprepared
    cases prepared with
    | none =>
        obtain ⟨rfl, rfl⟩ := ends_pure.1 hrest
        obtain ⟨xs, -, hidle, -⟩ := check_justified h
        exact ⟨[], hsilent.trans (List.append_nil _).symm, .inl ⟨hidle.1 rfl, by simp⟩⟩
    | some p =>
        obtain ⟨earlier, hselects, hcounts, htarget, -⟩ := selects_of_prepare hprepared
        obtain ⟨ht, hcount, htarget'⟩ := admissible_of_prepare hprepared
        obtain ⟨xs, hxs, hbacked, hconcluded⟩ := concluded_of_conclude ht hcount htarget' hrest
        rw [htarget] at hconcluded
        refine ⟨xs, hxs.trans (congrArg (· ++ xs) hsilent), .inr ⟨earlier, p.task, hselects, ?_⟩⟩
        exact arithmetic_of_concluded hselects hbacked hconcluded
  · refine ⟨[], (silent_prepare c s state _ _ _ hstopped).trans (List.append_nil _).symm, ?_⟩
    cases stop with
    | error e =>
        rcases exists_selects_or_none s state.time c.options.keyUnit with
          ⟨earlier, t, hselects⟩ | hnone
        · exact .inr ⟨earlier, t, hselects, arithmetic_of_unprepared (by simp)⟩
        · exact .inl ⟨hnone, by simp⟩
    | fault f =>
        obtain ⟨earlier, t, hselects, hmany⟩ := overcounted_of_prepare hstopped
        exact .inr ⟨earlier, t, hselects, arithmetic_of_unprepared fun _ _ => hmany⟩

end Check

/-! ## A schedule out of range -/

/-- A checker that leaves all to a model checker that finds nothing. -/
def barren : Checker Unit :=
  { carefree with
    backend :=
      { runBmc := fun _ _ _ => pure ⟨"".toUTF8, some (.ofParts 1 0)⟩
        openSession := fun _ => pure ()
        getPath := fun _ => pure none } }

/-- A schedule whose only task is due at the lowest time, at the other end of the horizon. -/
def remote : Schedule :=
  ⟨⟨Time.lowest, 0⟩, [("u", [⟨"n", ⟨Time.lowest, Time.lowest⟩⟩])], by decide, by decide⟩

/-- The check of a task that can never be completed is at fault. -/
theorem faults_of_check_remote :
    ∃ f w' earlier t,
      Ends (barren.check remote ⟨Time.lowest, .null, []⟩) ⟨.empty, [], (), []⟩
        (.error (.fault f)) w' ∧
      remote.Selects Time.lowest none earlier t ∧
      FaultCause barren 0 (Schedule.occurrence earlier t) earlier t w'.exchanges := by
  obtain ⟨w', f, h⟩ : ∃ w' f, Ends (barren.check remote ⟨Time.lowest, .null, []⟩)
      ⟨.empty, [], (), []⟩ (.error (.fault f)) w' := ends_fault_of_breaksOff (by decide +kernel)
  obtain ⟨xs, hxs, ⟨-, hnone⟩ | ⟨earlier, t, hselects, harithmetic⟩⟩ := faults_of_check h
  · exact absurd rfl (hnone f)
  · obtain rfl : w'.exchanges = xs := hxs
    exact ⟨f, w', earlier, t, h, hselects, harithmetic.cause f rfl⟩

end Checker

end Punctual
