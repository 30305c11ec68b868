import Punctual.Proofs.Check.Completion
import Punctual.Proofs.Check.Recording
import Punctual.Proofs.Check.Selection

/-!
# Courses of a check

A check of a task prepares the model, searches for an early completion, and then may ask in a
session. The inductive relations of this module list, stage by stage, the events of every check
together with its result, broken off checks included: `Decided` for the session, `Inconclusive` for
everything after a search without success, `TaskCourse` for the check of a task. The theorems about
verdicts and files are read off from them by cases.
-/

namespace Punctual.Checker

open Check

variable {σ : Type}

/-! ## Stages -/

/-- The events of a session in which the task is decided, and the verdict. -/
inductive Decided (c : Checker σ) (r : Recorder) (g : Target) (t : Task) :
    List Event → Except (Stop CheckError) Verdict → Prop
  /-- The question about the deadline of the task breaks off. -/
  | undecided {es : List Event} {stop : Stop CheckError}
      (hstopped : Stopped r g t.deadline es stop) : Decided c r g t es (.error stop)
  | feasible (path : String) :
      Decided c r g t
        [queryEvent g t.deadline (.ok (some path)),
          .wrote .path (Artifact.traceText (Output.traceLines path))]
        (.ok (.feasible t (Output.finalTime path) .fullMc))
  /-- The path could not be written. -/
  | unwritten (path : String) (e : IoError) :
      Decided c r g t [queryEvent g t.deadline (.ok (some path))]
        (.error (.error (.artifact (Artifact.path.pathIn c.dir) e)))
  /-- The delay is not searched for. -/
  | assumed {es : List Event} {delay : Time}
      (hassumed : c.options.debugArgs.contains .simpleDelay)
      (hrecorded : Recorded r g [(t.deadline, false)] es)
      (hdelay : Recorder.delayAfter t.deadline t.deadline = .ok delay) :
      Decided c r g t es (.ok (.infeasible t (some delay) .assumed))
  /-- The smallest feasible deadline is known. -/
  | delayed {es : List Event} {asked : Answers} {b : DelayBounds} {delay : Time}
      (hnarrowing : Narrowing r g t.deadline asked b es)
      (hupper : b.upper = some (b.lower + 1))
      (hdelay : Recorder.delayAfter b.lower t.deadline = .ok delay) :
      Decided c r g t es (.ok (.infeasible t (some delay) .fullMc))
  /-- No deadline in the horizon is feasible. -/
  | hopeless {es : List Event} {asked : Answers} {b : DelayBounds}
      (hnarrowing : Narrowing r g t.deadline asked b es)
      (hlower : b.lower = r.horizon.closes) :
      Decided c r g t es (.ok (.infeasible t none .fullMc))
  /-- A question about a later deadline breaks off. -/
  | broken {es es' : List Event} {asked : Answers} {b : DelayBounds} {later : Time}
      {stop : Stop CheckError}
      (hnarrowing : Narrowing r g t.deadline asked b es)
      (hbracket : b.Bracket r.horizon.closes later)
      (hstopped : Stopped r g later es' stop) :
      Decided c r g t (es ++ es') (.error stop)
  /-- The gap between an infeasible and a feasible deadline is out of range. -/
  | wide {es : List Event} {asked : Answers} {b : DelayBounds} {upper : Time} {f : Fault}
      (hnarrowing : Narrowing r g t.deadline asked b es)
      (hupper : b.upper = some upper) (hgap : Time.sub upper b.lower = .error f) :
      Decided c r g t es (.error (.fault f))

/-- The events after a search that found no completion in time, and the verdict. -/
inductive Inconclusive (c : Checker σ) (r : Recorder) (g : Target) (t : Task)
    (found : BmcSearch) (modelPath : String) :
    List Event → Except (Stop CheckError) Verdict → Prop
  /-- The timeout heuristic has no answer. -/
  | unknown {f : Fault} (hfault : heuristicTime c.options found = .error f) :
      Inconclusive c r g t found modelPath [] (.error (.fault f))
  | heuristic {time lower delay : Time}
      (hheuristic : heuristicTime c.options found = .ok (some time))
      (hlower : Time.sub time 1 = .ok lower)
      (hdelay : Recorder.delayAfter lower t.deadline = .ok delay) :
      Inconclusive c r g t found modelPath [.wrote .delay (r.entry delay).text]
        (.ok (.infeasible t (some delay) .heuristic))
  /-- The delay of the heuristic is out of range. -/
  | overlong {time : Time} {f : Fault}
      (hheuristic : heuristicTime c.options found = .ok (some time))
      (hfault : ∀ lower, Time.sub time 1 = .ok lower →
        Recorder.delayAfter lower t.deadline = .error f) :
      Inconclusive c r g t found modelPath [] (.error (.fault f))
  /-- The delay of the heuristic could not be written. -/
  | unwritten {time : Time} (e : IoError)
      (hheuristic : heuristicTime c.options found = .ok (some time)) :
      Inconclusive c r g t found modelPath []
        (.error (.error (.artifact (Artifact.delay.pathIn c.dir) e)))
  | undetermined (hheuristic : heuristicTime c.options found = .ok none)
      (hfallback : c.options.fallback = false) :
      Inconclusive c r g t found modelPath [] (.ok (.undetermined t))
  /-- No session could be opened. -/
  | unopened (e : SolverError) (hheuristic : heuristicTime c.options found = .ok none)
      (hfallback : c.options.fallback = true) :
      Inconclusive c r g t found modelPath [.asked (.session modelPath (.error e))]
        (.error (.error (.solver e)))
  | decided {es : List Event} {result : Except (Stop CheckError) Verdict}
      (hheuristic : heuristicTime c.options found = .ok none)
      (hfallback : c.options.fallback = true) (hdecided : Decided c r g t es result) :
      Inconclusive c r g t found modelPath
        (.asked (.session modelPath (.ok ())) :: es) result

/-- The event writes one of the files from which the model is made. -/
def IsPreparation (e : Event) : Prop :=
  ∃ a text, e = .wrote a text ∧ (a = .schedule ∨ a = .state ∨ a = .combined)

/-- The events of a check of a task, and the verdict. -/
inductive TaskCourse (c : Checker σ) (r : Recorder) (g : Target) (t : Task) :
    List Event → Except (Stop CheckError) Verdict → Prop
  /-- There is no model. -/
  | unprepared {es : List Event} {stop : Stop CheckError} (hprep : ∀ e ∈ es, IsPreparation e) :
      TaskCourse c r g t es (.error stop)
  /-- The search breaks off. -/
  | unsearched {es es₁ : List Event} {model : String}
      {stop : Stop CheckError} (hprep : ∀ e ∈ es, IsPreparation e)
      (hsearch : BmcSearch.SearchEvents c.dir c.options.bmc model g
        (.start c.options.bmc.baseTimeout) es₁ (.error stop)) :
      TaskCourse c r g t (es ++ es₁) (.error stop)
  | met {es es₁ : List Event} {model : String} {found : BmcSearch}
      {trace : List String} (hprep : ∀ e ∈ es, IsPreparation e)
      (hsearch : BmcSearch.SearchEvents c.dir c.options.bmc model g
        (.start c.options.bmc.baseTimeout) es₁ (.ok found))
      (hmeets : found.meets t.deadline) (htrace : found.counterexample = some trace) :
      TaskCourse c r g t (es ++ es₁ ++ [.wrote .path (Artifact.traceText trace)])
        (.ok (.feasible t found.finalTime .bmc))
  /-- The trace could not be written. -/
  | unwritten {es es₁ : List Event} {model : String} {found : BmcSearch}
      (e : IoError) (hprep : ∀ e ∈ es, IsPreparation e)
      (hsearch : BmcSearch.SearchEvents c.dir c.options.bmc model g
        (.start c.options.bmc.baseTimeout) es₁ (.ok found))
      (hmeets : found.meets t.deadline) :
      TaskCourse c r g t (es ++ es₁)
        (.error (.error (.artifact (Artifact.path.pathIn c.dir) e)))
  | inconclusive {es es₁ es₂ : List Event} {model modelPath : String}
      {found : BmcSearch} {result : Except (Stop CheckError) Verdict}
      (hprep : ∀ e ∈ es, IsPreparation e)
      (hsearch : BmcSearch.SearchEvents c.dir c.options.bmc model g
        (.start c.options.bmc.baseTimeout) es₁ (.ok found))
      (hmissed : found.meets t.deadline = false)
      (hinconclusive : Inconclusive c r g t found modelPath es₂ result) :
      TaskCourse c r g t (es ++ es₁ ++ es₂) result

/-! ## The courses -/

/-- What a check does with the result of a session. -/
def announce (c : Checker σ) (t : Task) (found : Reachability) : Check σ Verdict := do
  let verdict ← match found with
    | .feasible path => do
      let _ ← Artifact.writePath c.dir (Output.traceLines path)
      pure (.feasible t (Output.finalTime path) .fullMc)
    | .infeasible bounds =>
      if bounds.upper.isNone then pure (.infeasible t none .fullMc)
      else do
        let delay ← Action.ofFault bounds.delay
        pure (.infeasible t (some delay) .fullMc)
    | .delayAssumed bounds => do
      let delay ← Action.ofFault bounds.delay
      pure (.infeasible t (some delay) .assumed)
  Check.info ("Result: " ++ verdict.text)
  return verdict

section Course

variable {c : Checker σ} {s : Schedule} {state : PlantState} {counts : Counts} {t : Task}
  {r : Recorder} {g : Target} {found : BmcSearch} {b : DelayBounds} {modelPath : String}
  {w m w' : World σ} {result : Except (Stop CheckError) Verdict}

theorem announce_feasible {path : String} (h : Ends (c.announce t (.feasible path)) w result w') :
    (result = .ok (.feasible t (Output.finalTime path) .fullMc) ∧
        Course c.backend c.combiner c.dir w
          [.wrote .path (Artifact.traceText (Output.traceLines path))] w') ∨
      ∃ e, result = .error (.error (.artifact (Artifact.path.pathIn c.dir) e)) ∧ w' = w := by
  rcases ends_bind.1 h with ⟨path, m, hwrite, hlast⟩ | ⟨stop, rfl, hwrite⟩
  · rw [pure_bind, ends_info_bind] at hlast
    obtain ⟨rfl, rfl⟩ := ends_pure.1 hlast
    obtain ⟨-, hcourse⟩ := write_course hwrite
    exact .inl ⟨rfl, hcourse.thenLogged _⟩
  · obtain ⟨⟨e, rfl⟩, rfl⟩ := ends_write_error hwrite
    exact .inr ⟨e, rfl, rfl⟩

theorem announce_hopeless (hupper : b.upper = none)
    (h : Ends (c.announce t (.infeasible b)) w result w') :
    result = .ok (.infeasible t none .fullMc) ∧ ∃ reports, w' = w.logged reports := by
  unfold announce at h
  dsimp only at h
  rw [if_pos (by simp [hupper]), pure_bind, ends_info_bind] at h
  obtain ⟨hresult, hw⟩ := ends_pure.1 h
  exact ⟨hresult, _, hw⟩

theorem announce_delayed {upper delay : Time} (hupper : b.upper = some upper)
    (hdelay : b.delay = .ok delay) (h : Ends (c.announce t (.infeasible b)) w result w') :
    result = .ok (.infeasible t (some delay) .fullMc) ∧ ∃ reports, w' = w.logged reports := by
  unfold announce at h
  dsimp only at h
  rw [if_neg (by simp [hupper]), hdelay, ends_ofFault_ok_bind, pure_bind, ends_info_bind] at h
  obtain ⟨hresult, hw⟩ := ends_pure.1 h
  exact ⟨hresult, _, hw⟩

theorem announce_assumed {delay : Time} (hdelay : b.delay = .ok delay)
    (h : Ends (c.announce t (.delayAssumed b)) w result w') :
    result = .ok (.infeasible t (some delay) .assumed) ∧ ∃ reports, w' = w.logged reports := by
  unfold announce at h
  dsimp only at h
  rw [hdelay, ends_ofFault_ok_bind, pure_bind, ends_info_bind] at h
  obtain ⟨hresult, hw⟩ := ends_pure.1 h
  exact ⟨hresult, _, hw⟩

/-- A session that was opened has a course, up to the verdict. -/
theorem session_course (ht : t ∈ s.units.tasks)
    (hcount : counts.get t.unit t.name < maxCount)
    (h : Ends (reachability c.backend s counts t
      (!c.options.debugArgs.contains .simpleDelay) (Recorder.ofTask c.dir s state t).handOn >>=
        c.announce t) w result w') :
    ∃ es, Course c.backend c.combiner c.dir w es w' ∧
      Decided c (.ofTask c.dir s state t) (counts.targetOf t) t es result := by
  let r := Recorder.ofTask c.dir s state t
  rcases ends_bind.1 h with ⟨found, m, hreach, hlast⟩ | ⟨stop, rfl, hreach⟩
  · cases reachability_course c.combiner c.dir ht hcount hreach with
    | feasible hasked =>
        rcases announce_feasible hlast with ⟨rfl, hwrote⟩ | ⟨e, rfl, rfl⟩
        · exact ⟨_, hasked.append hwrote, .feasible _⟩
        · exact ⟨_, hasked, .unwritten _ e⟩
    | assumed hassumed hprobing =>
        obtain ⟨es, hcourse, hrecorded⟩ := Probing.recorded (r := r) hprobing
        obtain ⟨delay, hdelay⟩ := hrecorded.exists_delay List.mem_cons_self
        have hbounds : (DelayBounds.ofDeadline t.deadline).delay = .ok delay := hdelay
        obtain ⟨rfl, reports, rfl⟩ := announce_assumed hbounds hlast
        exact ⟨es, hcourse.thenLogged reports,
          .assumed (by simpa using hassumed) hrecorded hdelay⟩
    | @searched asked b _ hsearch hprobing hnarrows hfound =>
        obtain ⟨es, hcourse, hrecorded⟩ := Probing.recorded (r := r) hprobing
        have hnarrowing : Narrowing r (counts.targetOf t) t.deadline asked b es :=
          ⟨hrecorded, hnarrows⟩
        rcases hfound with hupper | ⟨hupper, hlower⟩
        · obtain ⟨delay, hdelay⟩ := hnarrowing.exists_delay
          have hbounds : b.delay = .ok delay := by
            unfold DelayBounds.delay
            rw [hnarrows.deadline_eq]
            exact hdelay
          obtain ⟨rfl, reports, rfl⟩ := announce_delayed hupper hbounds hlast
          exact ⟨es, hcourse.thenLogged reports, .delayed hnarrowing hupper hdelay⟩
        · obtain ⟨rfl, reports, rfl⟩ := announce_hopeless hupper hlast
          exact ⟨es, hcourse.thenLogged reports, .hopeless hnarrowing hlower⟩
  · cases reachability_course c.combiner c.dir ht hcount hreach with
    | undecided hbreaks =>
        obtain ⟨es, hcourse, hstopped⟩ := Breaks.stopped (r := r) hbreaks
        exact ⟨es, hcourse, .undecided hstopped⟩
    | broken hsearch hprobing hnarrows hbracket hbreaks =>
        obtain ⟨es, hcourse, hrecorded⟩ := Probing.recorded (r := r) hprobing
        obtain ⟨es', hcourse', hstopped⟩ := Breaks.stopped (r := r) hbreaks
        exact ⟨es ++ es', hcourse.append hcourse',
          .broken ⟨hrecorded, hnarrows⟩ hbracket hstopped⟩
    | wide hsearch hprobing hnarrows hupper hgap =>
        obtain ⟨es, hcourse, hrecorded⟩ := Probing.recorded (r := r) hprobing
        exact ⟨es, hcourse, .wide ⟨hrecorded, hnarrows⟩ hupper hgap⟩

theorem decideExactly_course (ht : t ∈ s.units.tasks)
    (hcount : counts.get t.unit t.name < maxCount)
    (hheuristic : heuristicTime c.options found = .ok none)
    (hfallback : c.options.fallback = true)
    (h : Ends (c.decideExactly s (.ofTask c.dir s state t) counts t modelPath) w result w') :
    ∃ es, Course c.backend c.combiner c.dir w es w' ∧
      Inconclusive c (.ofTask c.dir s state t) (counts.targetOf t) t found modelPath es result := by
  unfold decideExactly at h
  rw [ends_info_bind] at h
  have hlogged {reports : Log} : Course c.backend c.combiner c.dir w [] (w.logged reports) :=
    .logged w reports
  rcases ends_bind.1 h with ⟨⟨⟩, m, hopen, hnext⟩ | ⟨stop, rfl, hopen⟩
  · have hopened := hlogged.append (exchange_course_ok hopen fun _ _ hends => hends)
    obtain ⟨es, hcourse, hdecided⟩ := session_course ht hcount hnext
    exact ⟨_, hopened.append hcourse, .decided hheuristic hfallback hdecided⟩
  · obtain ⟨e, rfl, hopened⟩ :=
      exchange_course_error c.combiner hopen fun _ _ hends => hends
    exact ⟨_, hlogged.append hopened, .unopened e hheuristic hfallback⟩

/-- Everything after a search without success has a course. -/
theorem decideInconclusive_course (ht : t ∈ s.units.tasks)
    (hcount : counts.get t.unit t.name < maxCount)
    (h : Ends (c.decideInconclusive s state counts t modelPath found) w result w') :
    ∃ es, Course c.backend c.combiner c.dir w es w' ∧
      Inconclusive c (.ofTask c.dir s state t) (counts.targetOf t) t found modelPath es result := by
  unfold decideInconclusive at h
  rcases ends_ofFault_bind.1 h with ⟨answer, hheuristic, hnext⟩ | ⟨f, hfault, rfl, rfl⟩
  · cases answer with
    | none =>
        dsimp only at hnext
        cases hfallback : c.options.fallback with
        | false =>
            rw [hfallback, if_pos (by simp), ends_info_bind] at hnext
            obtain ⟨rfl, rfl⟩ := ends_pure.1 hnext
            exact ⟨[], .logged _ _, .undetermined hheuristic hfallback⟩
        | true =>
            rw [hfallback, if_neg (by simp)] at hnext
            exact decideExactly_course ht hcount hheuristic hfallback hnext
    | some time =>
        dsimp only at hnext
        rw [ends_warn_bind] at hnext
        rcases ends_ofFault_bind.1 hnext with ⟨lower, hlower, hrecord⟩ | ⟨f, hfault, rfl, rfl⟩
        · rcases ends_bind.1 hrecord with ⟨delay, m, hrecorded, hlast⟩ | ⟨stop, rfl, hrecorded⟩
          · obtain ⟨hdelay, hcourse⟩ := Recorder.record_course c.backend c.combiner hrecorded
            obtain ⟨rfl, rfl⟩ := ends_pure.1 hlast
            exact ⟨_, (Course.logged w _).append hcourse, .heuristic hheuristic hlower hdelay⟩
          · obtain ⟨rfl, ⟨f, hfault, rfl⟩ | ⟨delay, e, -, rfl⟩⟩ := Recorder.record_error hrecorded
            · refine ⟨[], .logged _ _, .overlong hheuristic ?_⟩
              intro lower' hlower'
              obtain rfl := Except.ok.inj (hlower.symm.trans hlower')
              exact hfault
            · exact ⟨[], .logged _ _, .unwritten e hheuristic⟩
        · refine ⟨[], .logged _ _, .overlong hheuristic ?_⟩
          intro lower hlower
          exact absurd (hfault.symm.trans hlower) (by simp)
  · exact ⟨[], .nil _, .unknown hfault⟩

/-- All runs of the action only write files from which the model is made. -/
def Prepares (backend : Backend σ) (combiner : Combiner σ) (dir : String) {α : Type}
    (act : Check σ α) : Prop :=
  ∀ w r w', Ends act w r w' →
    ∃ es, Course backend combiner dir w es w' ∧ ∀ e ∈ es, IsPreparation e

section Prepares

variable {backend : Backend σ} {combiner : Combiner σ} {dir : String} {α β : Type}

theorem Prepares.bind {act : Check σ α} {f : α → Check σ β}
    (hact : Prepares backend combiner dir act) (hf : ∀ a, Prepares backend combiner dir (f a)) :
    Prepares backend combiner dir (act >>= f) := by
  intro w r w' h
  rcases ends_bind.1 h with ⟨a, m, hfirst, hrest⟩ | ⟨stop, -, hfirst⟩
  · obtain ⟨es, hcourse, hprep⟩ := hact w _ m hfirst
    obtain ⟨es', hcourse', hprep'⟩ := hf a m r w' hrest
    refine ⟨es ++ es', hcourse.append hcourse', ?_⟩
    intro e he
    exact (List.mem_append.1 he).elim (hprep e) (hprep' e)
  · exact hact w _ w' hfirst

theorem prepares_pure (a : α) : Prepares backend combiner dir (pure a : Check σ α) := by
  intro w r w' h
  obtain ⟨-, rfl⟩ := ends_pure.1 h
  exact ⟨[], .nil _, by simp⟩

theorem prepares_info (text : String) :
    Prepares backend combiner dir (info text : Check σ Unit) := by
  intro w r w' h
  obtain ⟨-, rfl⟩ := ends_info.1 h
  exact ⟨[], .logged _ _, by simp⟩

theorem prepares_warnings (texts : List String) :
    Prepares backend combiner dir (texts.forM warn : Check σ PUnit) := by
  intro w r w' h
  rw [← bind_pure (texts.forM warn)] at h
  obtain ⟨reports, hlast⟩ := ends_warnings_bind h
  obtain ⟨-, rfl⟩ := ends_pure.1 hlast
  exact ⟨[], .logged _ _, by simp⟩

theorem prepares_write {a : Artifact} (ha : a = .schedule ∨ a = .state ∨ a = .combined)
    (text : String) :
    Prepares backend combiner dir (Artifact.write dir a text : Check σ String) := by
  intro w r w' h
  rcases ends_write h with ⟨tree, hstore, -, rfl⟩ | ⟨e, -, rfl⟩
  · refine ⟨_, (Move.wrote hstore).course, ?_⟩
    intro e he
    exact ⟨a, text, List.mem_singleton.1 he, ha⟩
  · exact ⟨[], .nil _, by simp⟩

theorem prepares_combined (files : List String) (options : CombineOptions) :
    Prepares backend combiner dir (combined (combiner files options)) := by
  intro w r w' h
  obtain ⟨-, rfl⟩ := ends_combined h
  exact ⟨[], (Move.combined w files options).course, by simp⟩

theorem prepares_metadataFiles (metadata : Option Metadata) (t : Task) :
    Prepares backend combiner dir (metadataFiles metadata t : Check σ (List String)) := by
  unfold metadataFiles
  cases metadata with
  | none => exact prepares_pure []
  | some md => exact (prepares_warnings _).bind fun _ => prepares_pure _

/-- Preparing the model writes nothing but the files from which it is made. -/
theorem prepares_assemble (options : CombineOptions) (metadata : Option Metadata)
    (spec : DeadlineSpec) (state : PlantState) (t : Task) :
    Prepares backend combiner dir (assemble combiner options metadata dir spec state t) := by
  refine (prepares_write (.inl rfl) _).bind fun _ => ?_
  refine (prepares_write (.inr (.inl rfl)) _).bind fun _ => ?_
  refine (prepares_metadataFiles _ _).bind fun _ => ?_
  refine (prepares_combined _ _).bind fun _ => ?_
  refine (prepares_write (.inr (.inr rfl)) _).bind fun _ => ?_
  exact (prepares_info _).bind fun _ => prepares_pure _

end Prepares

/-- A search that met the deadline has a trace to show. -/
theorem exists_trace {options : BmcOptions} {model : String} {es : List Event}
    (hsearch : BmcSearch.SearchEvents c.dir options model g
      (.start options.baseTimeout) es (.ok found)) (hmeets : found.meets g.deadline) :
    ∃ trace, found.counterexample = some trace := by
  rcases hsearch.meets_or_isPoint BmcSearch.isPoint_start with
    ⟨-, es', last, answer, time, trace, elapsed, -, -, -, rfl⟩ | ⟨hmissed, -⟩
  · exact ⟨trace, rfl⟩
  · rw [hmissed] at hmeets
    simp at hmeets

/-- From the search on, the check of a task has a course. -/
theorem searched_course {model : String} (ht : t ∈ s.units.tasks)
    (hcount : counts.get t.unit t.name < maxCount)
    (h : Ends (BmcSearch.search c.backend c.dir c.options.bmc model (counts.targetOf t) >>=
      fun found =>
        if found.meets t.deadline then do
          if let some trace := found.counterexample then
            let _ ← Artifact.writePath c.dir trace
          info ("Task " ++ t.text ++ " meets its deadline (bounded model checking)")
          return .feasible t found.finalTime .bmc
        else c.decideInconclusive s state counts t modelPath found) w result w') :
    ∃ es, Course c.backend c.combiner c.dir w es w' ∧
      ∀ es₀, (∀ e ∈ es₀, IsPreparation e) →
        TaskCourse c (.ofTask c.dir s state t) (counts.targetOf t) t (es₀ ++ es) result := by
  rcases ends_bind.1 h with ⟨found, m, hsearch, hrest⟩ | ⟨stop, rfl, hsearch⟩
  · obtain ⟨es, hevents, hcourse⟩ := BmcSearch.search_course c.combiner hsearch
    split at hrest
    · next hmeets =>
        obtain ⟨trace, htrace⟩ := exists_trace (c := c) hevents hmeets
        rw [htrace] at hrest
        rcases ends_bind.1 hrest with ⟨path, m', hwrite, hlast⟩ | ⟨stop, rfl, hwrite⟩
        · have hwrote : _ ∧ Course c.backend c.combiner c.dir m _ m' := write_course hwrite
          rw [ends_info_bind] at hlast
          obtain ⟨rfl, rfl⟩ := ends_pure.1 hlast
          refine ⟨_, hcourse.append (hwrote.2.thenLogged _), fun es₀ hprep => ?_⟩
          rw [← List.append_assoc]
          exact .met hprep hevents hmeets htrace
        · obtain ⟨⟨e, rfl⟩, rfl⟩ := ends_write_error hwrite
          exact ⟨es, hcourse, fun es₀ hprep => .unwritten e hprep hevents hmeets⟩
    · next hmissed =>
        obtain ⟨es', hcourse', hinconclusive⟩ := decideInconclusive_course ht hcount hrest
        refine ⟨_, hcourse.append hcourse', fun es₀ hprep => ?_⟩
        rw [← List.append_assoc]
        exact .inconclusive hprep hevents (by simpa using hmissed) hinconclusive
  · obtain ⟨es, hevents, hcourse⟩ := BmcSearch.search_course c.combiner hsearch
    exact ⟨es, hcourse, fun es₀ hprep => .unsearched hprep hevents⟩

/-- Every check of a task has a course. -/
theorem checkTask_course (ht : t ∈ s.units.tasks)
    (h : Ends (c.checkTask s state counts t) w result w') :
    ∃ es, Course c.backend c.combiner c.dir w es w' ∧
      TaskCourse c (.ofTask c.dir s state t) (counts.targetOf t) t es result := by
  obtain ⟨sub, hsub, hordered⟩ := Schedule.single_eq_ok (s.fitsIn t ht)
  unfold checkTask at h
  rw [hsub, ends_derived_bind] at h
  by_cases hcount : counts.get t.unit t.name < maxCount
  · obtain ⟨spec, hspec, htarget⟩ := DeadlineSpec.ofSchedule_of_ordered hordered hcount
    obtain ⟨reports, hnext⟩ := ends_specify_bind hspec h
    rw [htarget] at hnext
    have hprepares : Prepares c.backend c.combiner c.dir
        (assemble c.combiner c.options.combine c.metadata c.dir spec state t) :=
      prepares_assemble _ _ _ _ _
    rcases ends_bind.1 hnext with ⟨⟨path, model⟩, m, hassemble, hrest⟩ | ⟨stop, rfl, hassemble⟩
    · obtain ⟨es, hcourse, hprep⟩ := hprepares _ _ _ hassemble
      obtain ⟨es', hcourse', htask⟩ := searched_course ht hcount hrest
      exact ⟨_, (Course.logged w reports).append (hcourse.append hcourse'), htask es hprep⟩
    · obtain ⟨es, hcourse, hprep⟩ := hprepares _ _ _ hassemble
      exact ⟨es, (Course.logged w reports).append hcourse, .unprepared hprep⟩
  · have hfault := DeadlineSpec.ofSchedule_of_maxCount hordered hcount
    obtain ⟨rfl, rfl⟩ := ends_specify_bind_of_fault hfault h
    exact ⟨[], .nil _, .unprepared (by simp)⟩

end Course

/-! ## Whole checks -/

/-- The events of a check once the old run is marked as not known, and the verdict. -/
inductive CheckCourse (c : Checker σ) (s : Schedule) (state : PlantState) :
    List Event → Except (Stop CheckError) Verdict → Prop
  | idle
      (hnone : ∀ t ∈ s.units.tasks, ¬ Schedule.isCandidate state.time c.options.keyUnit t) :
      CheckCourse c s state [] (.ok .noActiveTask)
  | task {earlier : List Task} {t : Task} {es : List Event}
      {result : Except (Stop CheckError) Verdict}
      (hselects : s.Selects state.time c.options.keyUnit earlier t)
      (htask : TaskCourse c (.ofTask c.dir s state t) (Schedule.occurrence earlier t) t es
        result) :
      CheckCourse c s state es result

/-- The events of a check of files once the old run is marked as not known, and the verdict. -/
inductive FilesCourse (c : Checker σ) (tree : Tree) (schedulePath statePath : String) :
    List Event → Except (Stop CheckError) Verdict → Prop
  | noSchedule {e : InputError ScheduleError}
      (hread : tree.readInput schedulePath Schedule.read = .error e) :
      FilesCourse c tree schedulePath statePath [] (.error (.error (.schedule schedulePath e)))
  | noState {e : InputError StateError}
      (hread : tree.readInput statePath PlantState.read = .error e) :
      FilesCourse c tree schedulePath statePath [] (.error (.error (.state statePath e)))
  | checked {s : Schedule} {state : PlantState} {es : List Event}
      {result : Except (Stop CheckError) Verdict}
      (hschedule : tree.readInput schedulePath Schedule.read = .ok s)
      (hstate : tree.readInput statePath PlantState.read = .ok state)
      (hcheck : CheckCourse c s state es result) :
      FilesCourse c tree schedulePath statePath es result

/-- Every check marks the run as not known before anything else. If the mark cannot be stored,
nothing else happens; otherwise the events after it and the result are as described. -/
inductive Marked (c : Checker σ) (w : World σ)
    (described : Tree → List Event → Except (Stop CheckError) Verdict → Prop) :
    Except (Stop CheckError) Verdict → World σ → Prop
  | unmarked (e : IoError)
      (hstore : Artifact.store w.tree c.dir .path Artifact.placeholder =
        .error (.artifact (Artifact.path.pathIn c.dir) e)) :
      Marked c w described (.error (.error (.artifact (Artifact.path.pathIn c.dir) e))) w
  | marked {tree : Tree} {es : List Event} {result : Except (Stop CheckError) Verdict}
      {w' : World σ}
      (hstore : Artifact.store w.tree c.dir .path Artifact.placeholder = .ok tree)
      (hcourse : Course c.backend c.combiner c.dir { w with tree := tree } es w')
      (hdescribed : described tree es result) : Marked c w described result w'

section Check

variable {c : Checker σ} {s : Schedule} {state : PlantState} {w w' : World σ}
  {result : Except (Stop CheckError) Verdict}

/-- A report that is only made in some cases makes no difference to what follows. -/
theorem ends_warn_if_bind {p : Prop} [Decidable p] {text : String} {α : Type}
    {act : Check σ α} {r : Except (Stop CheckError) α}
    (h : Ends (if p then warn text >>= fun _ => act else act) w r w') :
    ∃ reports, Ends act (w.logged reports) r w' := by
  split at h
  · rw [ends_warn_bind] at h
    exact ⟨_, h⟩
  · rw [← World.logged_nil w] at h
    exact ⟨[], h⟩

theorem checkActive_course (h : Ends (c.checkActive s state) w result w') :
    ∃ es, Course c.backend c.combiner c.dir w es w' ∧ CheckCourse c s state es result := by
  unfold checkActive at h
  cases hselect : select s.ordered state.time c.options.keyUnit with
  | none =>
      rw [hselect] at h
      dsimp only at h
      rw [ends_info_bind] at h
      obtain ⟨rfl, rfl⟩ := ends_pure.1 h
      exact ⟨[], .logged _ _, .idle (select_eq_none_iff.1 hselect)⟩
  | some selected =>
      obtain ⟨i, t, active⟩ := selected
      have hselects := selects_of_select hselect
      rw [hselect] at h
      dsimp only at h
      obtain ⟨reports, hnext⟩ := ends_warn_if_bind h
      rw [ends_info_bind] at hnext
      have hlogged {more : Log} : Course c.backend c.combiner c.dir w []
          ((w.logged reports).logged more) :=
        (Course.logged w reports).thenLogged more
      rcases ends_ofFault_bind.1 hnext with ⟨counts, hcounts, htask⟩ | ⟨f, -, rfl, rfl⟩
      · obtain ⟨es, hcourse, htask⟩ := checkTask_course hselects.mem htask
        rw [Schedule.targetOf_eq_occurrence hcounts] at htask
        exact ⟨es, hlogged.append hcourse, .task hselects htask⟩
      · exact ⟨[], hlogged, .task hselects (.unprepared (by simp))⟩

theorem marked_of_ends {rest : Check σ Verdict}
    {described : Tree → List Event → Except (Stop CheckError) Verdict → Prop}
    (h : Ends (Artifact.writePlaceholder c.dir >>= fun _ => rest) w result w')
    (hrest : ∀ tree, Ends rest { w with tree := tree } result w' →
      ∃ es, Course c.backend c.combiner c.dir { w with tree := tree } es w' ∧
        described tree es result) : Marked c w described result w' := by
  rcases ends_bind.1 h with ⟨path, m, hwrite, hends⟩ | ⟨stop, rfl, hwrite⟩
  · obtain ⟨tree, hstore, -, rfl⟩ := ends_write_ok hwrite
    obtain ⟨es, hcourse, hdescribed⟩ := hrest tree hends
    exact .marked hstore hcourse hdescribed
  · obtain ⟨⟨e, rfl⟩, rfl⟩ := ends_write_error hwrite
    exact .unmarked e (store_of_write_error hwrite)

theorem Marked.imp
    {described described' : Tree → List Event → Except (Stop CheckError) Verdict → Prop}
    (h : Marked c w described result w')
    (himp : ∀ tree es, described tree es result → described' tree es result) :
    Marked c w described' result w' := by
  cases h with
  | unmarked e hstore => exact .unmarked e hstore
  | marked hstore hcourse hdescribed => exact .marked hstore hcourse (himp _ _ hdescribed)

theorem check_course (h : Ends (c.check s state) w result w') :
    Marked c w (fun _ => CheckCourse c s state) result w' :=
  marked_of_ends h fun _ => checkActive_course

theorem checkFiles_course {schedulePath statePath : String}
    (h : Ends (c.checkFiles schedulePath statePath) w result w') :
    Marked c w (fun tree => FilesCourse c tree schedulePath statePath) result w' := by
  refine marked_of_ends h fun tree hrest => ?_
  rw [ends_get_bind] at hrest
  dsimp only at hrest
  cases hschedule : tree.readInput schedulePath Schedule.read with
  | error e =>
      rw [hschedule] at hrest
      obtain ⟨rfl, rfl⟩ := ends_fail.1 hrest
      exact ⟨[], .nil _, .noSchedule hschedule⟩
  | ok s =>
      rw [hschedule] at hrest
      cases hstate : tree.readInput statePath PlantState.read with
      | error e =>
          rw [hstate] at hrest
          obtain ⟨rfl, rfl⟩ := ends_fail.1 hrest
          exact ⟨[], .nil _, .noState hstate⟩
      | ok state =>
          rw [hstate] at hrest
          obtain ⟨es, hcourse, hcheck⟩ := checkActive_course hrest
          exact ⟨es, hcourse, .checked hschedule hstate hcheck⟩

end Check

end Punctual.Checker
