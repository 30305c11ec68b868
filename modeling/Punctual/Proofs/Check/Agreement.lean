import Punctual.Proofs.Check.Completeness
import Punctual.Proofs.Check.Leftovers
import Punctual.Proofs.Check.Preparation
import Punctual.Proofs.Text.Numeral

/-!
# Agreement of the two strategies

A check may trust the timeout heuristic, or leave a task that misses its deadline to full model
checking. The one ends with a completion from which no earlier one was found, the other with two
adjacent deadlines. If the model checker is right about a plant in both roles, the two strategies
come to the same delay (`strategies_agree`).

The one thing that is not up to the model checker is the timeout of the next run, which has to be a
duration (`strategies_break_off`).
-/

namespace Punctual

variable {σ : Type}

/-- The delay after a deadline leads from the deadline of the task to the next one. -/
theorem Recorder.eq_of_delayAfter {lower deadline delay : Time} (hlate : deadline ≤ lower)
    (h : delayAfter lower deadline = .ok delay) : delay = lower + 1 - deadline := by
  obtain ⟨rfl, -⟩ := (delayAfter_eq_ok_iff hlate).1 h
  exact Int.add_right_comm lower (-deadline) 1

namespace Check

/-- A session gives the right answer to every question about a target that can be completed at
certain times. -/
structure Decides (backend : Backend σ) (target : Target) (times : Set Time) : Prop where
  opens : ∀ path s, ∃ s', Ends (backend.openSession path) s (.ok ()) s'
  answers : ∀ deadline s, ∃ path s',
    Ends (backend.getPath (target.reachedBy deadline)) s (.ok path) s' ∧
      (path.isSome ↔ ∃ time ∈ times, time ≤ deadline)

section Decides

variable {backend : Backend σ} {g : Target} {times : Set Time} {first deadline : Time}
  {asked : List Exchange}

/-- The answers have the earliest completion as their threshold. -/
theorem Decides.threshold (hdecides : Decides backend g times) (hleast : IsLeast times first) :
    Threshold backend g first := by
  intro deadline s path s' hends
  obtain ⟨path', after, hanswer, hpath⟩ := hdecides.answers deadline s
  obtain rfl := Except.ok.inj (hends.unique hanswer).1
  rw [hpath]
  constructor
  · rintro ⟨time, htime, hle⟩
    exact Int.le_trans (hleast.2 htime) hle
  · intro hle
    exact ⟨first, hleast.1, hle⟩

theorem Decides.ne_error (hdecides : Decides backend g times) (hbacked : Backed backend asked)
    (e : SolverError) : .query (g.reachedBy deadline) (.error e) ∉ asked := by
  intro hasked
  obtain ⟨s, s', hends⟩ := hbacked _ _ hasked
  obtain ⟨path, after, hanswer, -⟩ := hdecides.answers deadline s
  exact absurd (hends.unique hanswer).1 (by simp)

end Decides

end Check

namespace Checker

open Check

/-! ## Sessions -/

section Sessions

variable {c : Checker σ} {r : Recorder} {g : Target} {times : Set Time} {first : Time}
  {es : List Event} {result : Except (Stop CheckError) Verdict}

/-- If all questions are answered, only the record of an infeasible deadline can break off. -/
theorem exists_artifact_of_stopped {later : Time} {stop : Stop CheckError}
    (hdecides : Decides c.backend g times) (hbacked : Backed c.backend (Event.exchanges es))
    (hlate : r.task.deadline ≤ later) (hhorizon : later ≤ r.horizon.closes)
    (hgap : Time.Fits (r.horizon.closes - r.task.deadline + 1))
    (h : Stopped r g later es stop) : ∃ path e, stop = .error (.artifact path e) := by
  cases h with
  | unanswered e => exact absurd List.mem_cons_self (hdecides.ne_error hbacked e)
  | unrecorded hfault =>
      exact absurd (fits_delay hlate hhorizon hgap) (Recorder.not_fits_of_delayAfter hlate hfault)
  | unwritten e hdelay => exact ⟨_, e, rfl⟩

/-- A search among answers with a threshold within the horizon ends right before it. -/
theorem eq_of_narrowing {asked : Answers} {b : DelayBounds}
    (hnarrowing : Narrowing r g r.task.deadline asked b es)
    (hbacked : Backed c.backend (Event.exchanges es)) (hthreshold : Threshold c.backend g first)
    (hlate : r.task.deadline < first) (hhorizon : first ≤ r.horizon.closes)
    (hgap : Time.Fits (r.horizon.closes - r.task.deadline + 1))
    (hupper : b.upper = some (b.lower + 1)) :
    b = ⟨r.task.deadline, first - 1, some first⟩ := by
  have hwithin := Int.le_of_lt (Int.lt_of_lt_of_le hlate hhorizon)
  have hcertified := certified_of_narrows hwithin hnarrowing.narrows (.inl hupper)
    hnarrowing.recorded.answers
  have hnames := hcertified.names hwithin hgap hbacked hthreshold
  exact Reachability.infeasible.inj (hnames.delayed_iff.2 ⟨hlate, hhorizon⟩)

/-- A session that is right about the plant ends with its delay. -/
theorem Decided.eq_infeasible (h : Decided c r g r.task es result)
    (hdecides : Decides c.backend g times) (hleast : IsLeast times first)
    (hbacked : Backed c.backend (Event.exchanges es))
    (hsearch : c.options.debugArgs.contains .simpleDelay = false)
    (hlate : r.task.deadline < first) (hhorizon : first ≤ r.horizon.closes)
    (hgap : Time.Fits (r.horizon.closes - r.task.deadline + 1))
    (hwritten : ∀ path e, result ≠ .error (.error (.artifact path e))) :
    result = .ok (.infeasible r.task (some (first - r.task.deadline)) .fullMc) := by
  have hwithin := Int.le_of_lt (Int.lt_of_lt_of_le hlate hhorizon)
  have hthreshold := hdecides.threshold hleast
  -- any other end of a session needs a wrong answer, a failed write or a deadline out of range
  cases h with
  | undecided hstopped =>
      obtain ⟨path, e, rfl⟩ := exists_artifact_of_stopped hdecides hbacked (Int.le_refl _)
        hwithin hgap hstopped
      exact absurd rfl (hwritten path e)
  | feasible path =>
      have hasked : Answered (Event.exchanges [queryEvent g r.task.deadline (.ok (some path))]) g
          r.task.deadline (some path) := List.mem_cons_self
      have hle := (hasked.first_le_iff hbacked hthreshold).1 rfl
      exact absurd hlate (Int.not_lt.2 hle)
  | unwritten path e => exact absurd rfl (hwritten _ e)
  | assumed hassumed =>
      rw [hsearch] at hassumed
      simp at hassumed
  | delayed hnarrowing hupper hdelay =>
      obtain rfl := eq_of_narrowing hnarrowing hbacked hthreshold hlate hhorizon hgap hupper
      have heq := Recorder.eq_of_delayAfter hnarrowing.narrows.lower_le hdelay
      rw [Int.sub_add_cancel] at heq
      subst heq
      rfl
  | hopeless hnarrowing hlower =>
      -- the end of the horizon was asked about, and the completion is not after it
      have hasked := hnarrowing.answered_lower
      have hreached := hasked.first_le_iff hbacked hthreshold
      rw [hlower] at hreached
      exact absurd (hreached.2 hhorizon) (by simp)
  | @broken es es' asked b later stop hnarrowing hbracket hstopped =>
      rw [Event.exchanges_append] at hbacked
      have hlater : r.task.deadline ≤ later :=
        Int.le_of_lt (Int.lt_of_le_of_lt hnarrowing.narrows.lower_le hbracket.1)
      obtain ⟨path, e, rfl⟩ := exists_artifact_of_stopped hdecides
        (fun target answer hx => hbacked target answer (List.mem_append_right _ hx)) hlater
        hbracket.2.1 hgap hstopped
      exact absurd rfl (hwritten path e)
  | @wide es asked b upper f hnarrowing hupper hwide =>
      have hin := hnarrowing.narrows.within ⟨hwithin, by rintro u ⟨⟩⟩
      have hfits := fits_gap hnarrowing.narrows.lower_le (hin.2 _ hupper).1 (hin.2 _ hupper).2 hgap
      exact absurd (hwide.symm.trans (Time.sub_eq_ok_iff.2 ⟨rfl, hfits⟩)) (by simp)

end Sessions

/-! ## The two strategies -/

/-- The check that trusts the timeout heuristic. -/
def trusting (c : Checker σ) : Checker σ :=
  { c with options := { c.options with trustHeuristic := true } }

/-- The check that searches for the delay by full model checking. -/
def exact (c : Checker σ) : Checker σ :=
  { c with options :=
    { c.options with trustHeuristic := false, fallback := true, debugArgs := [] } }

section Strategies

variable {c : Checker σ} {s : Schedule} {state : PlantState} {p : Prepared} {times : Set Time}
  {first : Time} {w w' m : World σ} {result : Except (Stop CheckError) Verdict}

/-- After the preparation of a check, the search comes to a result. -/
theorem conclude_finds
    (hcomplete : BmcSearch.Complete c.backend c.dir c.options.bmc p.model p.target times)
    (hextensible : BmcSearch.Extensible c.backend c.options.bmc)
    (h : Ends (c.conclude s state p) w result w')
    (hwritten : ∀ path e, result ≠ .error (.error (.artifact path e))) :
    ∃ found es m, BmcSearch.Finds times p.target.deadline found ∧
      BmcSearch.SearchEvents c.dir c.options.bmc p.model p.target
        (.start c.options.bmc.baseTimeout) es (.ok found) ∧
      Ends (c.judgeSearch s state p.counts p.task (Artifact.combined.pathIn c.dir) found) m result
        w' := by
  rcases ends_bind.1 h with ⟨path, m, hwrite, hrest⟩ | ⟨stop, rfl, hwrite⟩
  · obtain ⟨tree, -, rfl, rfl⟩ := ends_write_ok hwrite
    rw [ends_info_bind] at hrest
    rcases ends_bind.1 hrest with ⟨found, m, hsearch, hjudge⟩ | ⟨stop, rfl, hsearch⟩
    · obtain ⟨_, es, ⟨⟩, hfinds, hevents, -⟩ :=
        BmcSearch.search_finds c.combiner hsearch hcomplete hextensible (by simp)
      exact ⟨found, es, m, hfinds, hevents, hjudge⟩
    · obtain ⟨found, es, hfound, -⟩ := BmcSearch.search_finds c.combiner hsearch hcomplete
        hextensible (by simpa using hwritten)
      simp at hfound
  · obtain ⟨⟨e, rfl⟩, -⟩ := ends_write_error hwrite
    exact absurd rfl (hwritten _ e)

theorem judgeSearch_met {counts : Counts} {t : Task} {modelPath : String} {found : BmcSearch}
    (hmeets : found.meets t.deadline)
    (h : Ends (c.judgeSearch s state counts t modelPath found) w result w')
    (hwritten : ∀ path e, result ≠ .error (.error (.artifact path e))) :
    result = .ok (.feasible t found.finalTime .bmc) := by
  unfold judgeSearch at h
  rw [if_pos hmeets] at h
  cases htrace : found.counterexample with
  | none =>
      rw [htrace] at h
      dsimp only at h
      rw [ends_info_bind] at h
      exact (ends_pure.1 h).1
  | some trace =>
      rw [htrace] at h
      rcases ends_bind.1 h with ⟨path, m, hwrite, hrest⟩ | ⟨stop, rfl, hwrite⟩
      · rw [ends_info_bind] at hrest
        exact (ends_pure.1 hrest).1
      · obtain ⟨⟨e, rfl⟩, -⟩ := ends_write_error hwrite
        exact absurd rfl (hwritten _ e)

/-- If bounded model checking misses the deadline, what follows is up to the strategy. -/
theorem ends_decideInconclusive {counts : Counts} {t : Task} {modelPath : String}
    {found : BmcSearch} (hmissed : found.meets t.deadline = false)
    (h : Ends (c.judgeSearch s state counts t modelPath found) w result w') :
    Ends (c.decideInconclusive s state counts t modelPath found) w result w' := by
  unfold judgeSearch at h
  rwa [if_neg (by simp [hmissed])] at h

/-- What a check leaves that declares the task of a schedule infeasible. -/
structure Declares (c : Checker σ) (s : Schedule) (state : PlantState) (t : Task) (delay : Time)
    (proof : InfeasibilityProof) (result : Except (Stop CheckError) Verdict) (w' : World σ) :
    Prop where
  verdict : result = .ok (.infeasible t (some delay) proof)
  record : w'.tree.readText (Artifact.delay.pathIn c.dir) =
    .ok ((Recorder.ofTask c.dir s state t).entry delay).text

theorem Inconclusive.declares_heuristic {found : BmcSearch} {t : Task} {g : Target}
    {modelPath : String} {es : List Event}
    (h : Inconclusive c (.ofTask c.dir s state t) g t found modelPath es result)
    (htrust : c.options.trustHeuristic = true)
    (hpoint : BmcSearch.IsPoint c.options.bmc g found)
    (hfinal : found.finalTime = some first) (hlate : t.deadline < first)
    (hhorizon : first ≤ s.horizon.closes)
    (hgap : Time.Fits (s.horizon.closes - t.deadline + 1))
    (hfirst : 0 ≤ first ∧ Time.Fits first)
    (hcourse : Course c.backend c.combiner c.dir w es w')
    (halone : LeavesAlone c.backend c.combiner c.dir .delay)
    (hwritten : ∀ path e, result ≠ .error (.error (.artifact path e))) :
    Declares c s state t (first - t.deadline) .heuristic result w' := by
  have htime : heuristicTime c.options found = .ok (some first) :=
    (heuristicTime_eq_some_iff hpoint).2 ⟨htrust, hfinal⟩
  have hbefore : t.deadline ≤ first - 1 := Int.le_sub_one_of_lt hlate
  have hlower := Time.sub_one_eq_ok hfirst.1 hfirst.2
  have hleaves := hcourse.leaves halone
  cases h with
  | unknown hfault => exact absurd (htime.symm.trans hfault) (by simp)
  | @heuristic time lower delay htime' hlower' hdelay =>
      obtain rfl : first = time := by simpa using htime.symm.trans htime'
      obtain rfl : first - 1 = lower := Except.ok.inj (hlower.symm.trans hlower')
      have heq := Recorder.eq_of_delayAfter hbefore hdelay
      rw [Int.sub_add_cancel] at heq
      subst heq
      exact ⟨rfl, hleaves⟩
  | @overlong time f htime' hfault =>
      obtain rfl : first = time := by simpa using htime.symm.trans htime'
      have hfits := fits_delay hbefore (Int.le_trans (Int.sub_le_self _ (by decide)) hhorizon) hgap
      exact absurd hfits (Recorder.not_fits_of_delayAfter hbefore (hfault _ hlower))
  | unwritten e => exact absurd rfl (hwritten _ e)
  | undetermined htime' => exact absurd (htime.symm.trans htime') (by simp)
  | unopened e htime' => exact absurd (htime.symm.trans htime') (by simp)
  | decided htime' => exact absurd (htime.symm.trans htime') (by simp)

theorem Inconclusive.declares_fullMc {found : BmcSearch} {t : Task} {g : Target}
    {modelPath : String} {es : List Event}
    (h : Inconclusive c (.ofTask c.dir s state t) g t found modelPath es result)
    (htrust : c.options.trustHeuristic = false) (hfallback : c.options.fallback = true)
    (hsearch : c.options.debugArgs.contains .simpleDelay = false)
    (hpoint : BmcSearch.IsPoint c.options.bmc g found)
    (hdecides : Decides c.backend g times) (hleast : IsLeast times first)
    (hlate : t.deadline < first) (hhorizon : first ≤ s.horizon.closes)
    (hgap : Time.Fits (s.horizon.closes - t.deadline + 1))
    (hcourse : Course c.backend c.combiner c.dir w es w')
    (halone : LeavesAlone c.backend c.combiner c.dir .delay)
    (hwritten : ∀ path e, result ≠ .error (.error (.artifact path e))) :
    Declares c s state t (first - t.deadline) .fullMc result w' := by
  have htime : heuristicTime c.options found = .ok none := by
    rw [heuristicTime_eq hpoint, htrust]
    rfl
  have hleaves := hcourse.leaves halone
  have hbacked := backed_of_course hcourse
  cases h with
  | unknown hfault => exact absurd (htime.symm.trans hfault) (by simp)
  | heuristic htime' => exact absurd (htime.symm.trans htime') (by simp)
  | overlong htime' => exact absurd (htime.symm.trans htime') (by simp)
  | unwritten e => exact absurd rfl (hwritten _ e)
  | undetermined htime' hdisabled =>
      rw [hfallback] at hdisabled
      simp at hdisabled
  | unopened e =>
      obtain ⟨before, after, hholds⟩ := hcourse.holds_of_mem List.mem_cons_self
      obtain ⟨after', hopens⟩ := hdecides.opens modelPath before
      have hfails : Ends (c.backend.openSession modelPath) before (.error e) after := hholds
      exact absurd (hopens.unique hfails).1 (by simp)
  | @decided es _ htime' hfallback' hdecided =>
      have hqueries : Backed c.backend (Event.exchanges es) := by
        intro target answer hasked
        exact hbacked target answer (List.mem_cons_of_mem _ hasked)
      obtain rfl := hdecided.eq_infeasible hdecides hleast hqueries hsearch hlate hhorizon hgap
        hwritten
      have hrecord := ((hdecided.keepsDelay hwritten).verdict _ _ _ rfl).1
      -- the opening of the session writes nothing, so the last record is that of the search
      rw [Event.texts_asked, hrecord] at hleaves
      exact ⟨rfl, hleaves⟩

/-- A check that a complete model checker answers finds a completion in time, or it goes on after it
has found the earliest completion. -/
theorem check_settled
    (hleast : IsLeast times first)
    (hcomplete : BmcSearch.Complete c.backend c.dir c.options.bmc p.model p.target times)
    (hextensible : BmcSearch.Extensible c.backend c.options.bmc)
    (hprepared : Ends (c.prepare s state) w (.ok (some p)) m)
    (h : Ends (c.check s state) w result w')
    (hwritten : ∀ path e, result ≠ .error (.error (.artifact path e))) :
    (∃ time ∈ times, time ≤ p.task.deadline ∧
        result = .ok (.feasible p.task (some time) .bmc)) ∨
      p.task.deadline < first ∧ (0 ≤ first ∧ Time.Fits first) ∧ ∃ found es m,
        found.finalTime = some first ∧ BmcSearch.IsPoint c.options.bmc p.target found ∧
          Course c.backend c.combiner c.dir m es w' ∧
            Inconclusive c (.ofTask c.dir s state p.task) p.target p.task found
              (Artifact.combined.pathIn c.dir) es result := by
  obtain ⟨htask, hcount, htarget⟩ := admissible_of_prepare hprepared
  have hdeadline : p.target.deadline = p.task.deadline := congrArg Target.deadline htarget
  obtain ⟨found, es, m', hfinds, hevents, hjudge⟩ :=
    conclude_finds hcomplete hextensible (ends_conclude_of_prepare hprepared h) hwritten
  cases hmeets : found.meets p.task.deadline with
  | true =>
      obtain ⟨time, hfinal, hmet⟩ := (Option.any_eq_true _ _).1 hmeets
      have hresult := judgeSearch_met hmeets hjudge hwritten
      rw [hfinal] at hresult
      exact .inl ⟨time, hfinds.mem time hfinal, of_decide_eq_true hmet, hresult⟩
  | false =>
      rw [← hdeadline] at hmeets
      have hfinal := hfinds.finalTime_eq hmeets hleast
      have hmem : first ∈ completions (Event.exchanges es) := by
        have hleast := hevents.finalTime_eq
        rw [hfinal] at hleast
        exact List.min?_mem hleast.symm
      have hlate : p.task.deadline < first := by
        rw [← hdeadline]
        simpa [BmcSearch.meets, hfinal] using hmeets
      rw [hdeadline] at hmeets
      obtain ⟨es', hcourse, hinconclusive⟩ := decideInconclusive_course htask hcount
        (ends_decideInconclusive hmeets hjudge)
      rw [← htarget] at hinconclusive
      exact .inr ⟨hlate, nonneg_of_mem_completions hmem, found, es', m', hfinal,
        hevents.isPoint_of_missed (by rwa [hdeadline]), hcourse, hinconclusive⟩

/-- Both strategies agree about a plant that the model checker is right about: if its earliest
completion meets the deadline, both checks find one that does, and if it does not, both find the
same delay and leave the same record of it. -/
theorem strategies_agree {w₁ w₂ m₁ m₂ w₁' w₂' : World σ}
    {result₁ result₂ : Except (Stop CheckError) Verdict}
    (hleast : IsLeast times first) (hhorizon : first ≤ s.horizon.closes)
    (hgap : Time.Fits (s.horizon.closes - p.task.deadline + 1))
    (hcomplete : BmcSearch.Complete c.backend c.dir c.options.bmc p.model p.target times)
    (hextensible : BmcSearch.Extensible c.backend c.options.bmc)
    (hdecides : Decides c.backend p.target times)
    (halone : LeavesAlone c.backend c.combiner c.dir .delay)
    (hprepared₁ : Ends (c.prepare s state) w₁ (.ok (some p)) m₁)
    (hprepared₂ : Ends (c.prepare s state) w₂ (.ok (some p)) m₂)
    (h₁ : Ends (c.trusting.check s state) w₁ result₁ w₁')
    (h₂ : Ends (c.exact.check s state) w₂ result₂ w₂')
    (hwritten₁ : ∀ path e, result₁ ≠ .error (.error (.artifact path e)))
    (hwritten₂ : ∀ path e, result₂ ≠ .error (.error (.artifact path e))) :
    (first ≤ p.task.deadline →
      ∃ time₁ ∈ times, ∃ time₂ ∈ times, time₁ ≤ p.task.deadline ∧ time₂ ≤ p.task.deadline ∧
        result₁ = .ok (.feasible p.task (some time₁) .bmc) ∧
          result₂ = .ok (.feasible p.task (some time₂) .bmc)) ∧
      (p.task.deadline < first →
        result₁ = .ok (.infeasible p.task (some (first - p.task.deadline)) .heuristic) ∧
          result₂ = .ok (.infeasible p.task (some (first - p.task.deadline)) .fullMc) ∧
            ∃ text, w₁'.tree.readText (Artifact.delay.pathIn c.dir) = .ok text ∧
              w₂'.tree.readText (Artifact.delay.pathIn c.dir) = .ok text) := by
  have hfirst := check_settled (c := c.trusting) hleast hcomplete hextensible hprepared₁ h₁
    hwritten₁
  have hsecond := check_settled (c := c.exact) hleast hcomplete hextensible hprepared₂ h₂
    hwritten₂
  constructor
  · intro hmet
    obtain ⟨time₁, htime₁, hmet₁, hresult₁⟩ :=
      hfirst.resolve_right fun h => absurd h.1 (Int.not_lt.2 hmet)
    obtain ⟨time₂, htime₂, hmet₂, hresult₂⟩ :=
      hsecond.resolve_right fun h => absurd h.1 (Int.not_lt.2 hmet)
    exact ⟨time₁, htime₁, time₂, htime₂, hmet₁, hmet₂, hresult₁, hresult₂⟩
  · intro hlate
    have hnone : ¬ ∃ time ∈ times, time ≤ p.task.deadline := by
      rintro ⟨time, htime, hmet⟩
      exact Int.not_lt.2 (Int.le_trans (hleast.2 htime) hmet) hlate
    obtain ⟨-, hrange, found₁, es₁, m, hfinal, hpoint₁, hcourse₁, hinconclusive₁⟩ :=
      hfirst.resolve_left fun ⟨time, htime, hmet, _⟩ => hnone ⟨time, htime, hmet⟩
    obtain ⟨-, -, found₂, es₂, m', -, hpoint₂, hcourse₂, hinconclusive₂⟩ :=
      hsecond.resolve_left fun ⟨time, htime, hmet, _⟩ => hnone ⟨time, htime, hmet⟩
    have hdeclares₁ := hinconclusive₁.declares_heuristic rfl hpoint₁ hfinal hlate hhorizon hgap
      hrange hcourse₁ halone hwritten₁
    have hdeclares₂ := hinconclusive₂.declares_fullMc rfl rfl rfl hpoint₂ hdecides hleast hlate
      hhorizon hgap hcourse₂ halone hwritten₂
    exact ⟨hdeclares₁.verdict, hdeclares₂.verdict, _, hdeclares₁.record, hdeclares₂.record⟩

end Strategies

/-! ## A plant -/

/-- The target of a lone task. -/
def loneTarget : Target :=
  Counts.empty.targetOf loneTask

/-- The answer of a run: the claim that the target is never reached is refuted at time seven, and no
other one is. -/
def sevenAnswer (path : String) (tree : Tree) : BmcAnswer :=
  let claimed := BmcSearch.claimModel "MODULE main" loneTarget.neverCompletes
  let refuted := (tree.readText path).toOption.any (· = claimed)
  let output := if refuted then "-- specification is false\n    time = 7\n" else ""
  ⟨output.toUTF8, some (.ofParts 1 0)⟩

/-- A model checker that is right about a plant whose only task is completed at time seven. -/
def sevenBackend : Backend Unit where
  runBmc path _ _ := fun s => .ok (sevenAnswer path s.1) s
  openSession _ := pure ()
  getPath query :=
    let digits := (query.toList.drop "(COUNT_u_n = 1) & (time <= ".length).dropLast
    pure (if (Text.int? digits).any (7 ≤ ·) then some "" else none)

/-- A checker of the plant with a timeout factor. -/
def sevenChecker (factor : Float) : Checker Unit :=
  { carefree with
    backend := sevenBackend
    options :=
      { carefree.options with bmc := { BmcOptions.default with timeoutFactor := factor } } }

theorem ends_sevenBackend_runBmc {path : String} {n : Nat} {timeout : Duration}
    {s s' : Tree × Unit} {r : Except SolverError BmcAnswer}
    (h : Ends (sevenBackend.runBmc path n timeout) s r s') :
    r = .ok (sevenAnswer path s.1) ∧ s' = s := by
  have hends : Ends (sevenBackend.runBmc path n timeout) s (.ok (sevenAnswer path s.1)) s := rfl
  exact h.unique hends

theorem complete_sevenBackend (factor : Float) :
    BmcSearch.Complete sevenBackend "." (sevenChecker factor).options.bmc "MODULE main" loneTarget
      {7} := by
  intro known timeout s hknown hread
  refine ⟨sevenAnswer _ s.1, s, ?_, rfl⟩
  unfold sevenAnswer
  rw [hread]
  cases known with
  | none =>
    refine .refuted ?_ rfl (by simp)
    decide +kernel
  | some known =>
    obtain rfl : known = 7 := hknown known rfl
    refine .unrefuted (by decide +kernel) ?_
    rintro time rfl
    exact ⟨7, rfl, Int.le_refl _⟩

/-- What stands around the deadline in a question. -/
theorem toList_reachedBy_loneTarget (deadline : Time) :
    (loneTarget.reachedBy deadline).toList =
      "(COUNT_u_n = 1) & (time <= ".toList ++ ((toString deadline).toList ++ [')']) := by
  have hbeginning : "(" ++ loneTarget.counter ++ " = " ++ toString loneTarget.count ++ ") & (" ++
      PlantState.timeVariable ++ " <= " = "(COUNT_u_n = 1) & (time <= " := by decide +kernel
  unfold Target.reachedBy
  rw [hbeginning, String.toList_append, String.toList_append, List.append_assoc]
  rfl

theorem decides_sevenBackend : Decides sevenBackend loneTarget {7} := by
  refine ⟨fun path s => ⟨s, rfl⟩, fun deadline s => ⟨_, s, rfl, ?_⟩⟩
  have hdigits : ((loneTarget.reachedBy deadline).toList.drop
      "(COUNT_u_n = 1) & (time <= ".length).dropLast = (toString deadline).toList := by
    rw [toList_reachedBy_loneTarget, ← String.length_toList, List.drop_left, List.dropLast_concat]
  rw [hdigits, Text.int?_toString]
  simp

theorem leavesAlone_sevenChecker (factor : Float) (a : Artifact) :
    LeavesAlone (sevenChecker factor).backend (sevenChecker factor).combiner "." a := by
  refine ⟨?_, ?_, ?_, fun _ _ _ _ => rfl⟩
  · intro path n timeout s r s' hrun
    rw [(ends_sevenBackend_runBmc hrun).2]
  · intro path s r s' hopen
    rw [(ends_pure.1 hopen).2]
  · intro target s r s' hasked
    rw [(ends_pure.1 hasked).2]

/-- The only task is prepared, whatever the timeout factor is. -/
theorem prepare_sevenChecker (factor : Float) :
    ∃ p m, Ends ((sevenChecker factor).prepare lone ⟨0, .null, []⟩) ⟨.empty, [], (), []⟩
      (.ok (some p)) m ∧ p.task = loneTask ∧ p.target = loneTarget ∧ p.model = "MODULE main" := by
  obtain ⟨prepared, m, h, hprepared⟩ := exists_ends_ok_of_endsIn
    (carefree.prepare lone ⟨0, .null, []⟩) ⟨.empty, [], (), []⟩
    (Option.any fun p => p.task = loneTask ∧ p.target = loneTarget ∧ p.model = "MODULE main")
    (by decide +kernel)
  obtain ⟨p, rfl, hp⟩ := (Option.any_eq_true _ _).1 hprepared
  exact ⟨p, m, h, of_decide_eq_true hp⟩

theorem extensible_sevenBackend :
    BmcSearch.Extensible sevenBackend (sevenChecker 4.0).options.bmc := by
  intro path n timeout s answer s' elapsed hrun helapsed
  obtain rfl := Except.ok.inj (ends_sevenBackend_runBmc hrun).1
  obtain rfl := Option.some.inj helapsed
  have hscale : ((Duration.ofParts 1 0).scale 4.0).toOption.isSome := by decide +kernel
  cases hnext : (Duration.ofParts 1 0).scale 4.0 with
  | ok next => exact ⟨next, hnext⟩
  | error f =>
    rw [hnext] at hscale
    simp [Except.toOption] at hscale

/-- Both strategies find that the task is delayed by two time steps. -/
theorem strategies_agree_since_seven :
    ∃ r₁ r₂ w₁ w₂ text,
      Ends ((sevenChecker 4.0).trusting.check lone ⟨0, .null, []⟩) ⟨.empty, [], (), []⟩ r₁ w₁ ∧
      Ends ((sevenChecker 4.0).exact.check lone ⟨0, .null, []⟩) ⟨.empty, [], (), []⟩ r₂ w₂ ∧
      r₁ = .ok (.infeasible loneTask (some 2) .heuristic) ∧
      r₂ = .ok (.infeasible loneTask (some 2) .fullMc) ∧
      w₁.tree.readText (Artifact.delay.pathIn ".") = .ok text ∧
      w₂.tree.readText (Artifact.delay.pathIn ".") = .ok text := by
  obtain ⟨v₁, w₁, h₁, -⟩ := exists_ends_ok_of_endsIn
    ((sevenChecker 4.0).trusting.check lone ⟨0, .null, []⟩) ⟨.empty, [], (), []⟩
    (fun _ => true) (by decide +kernel)
  obtain ⟨v₂, w₂, h₂, -⟩ := exists_ends_ok_of_endsIn
    ((sevenChecker 4.0).exact.check lone ⟨0, .null, []⟩) ⟨.empty, [], (), []⟩
    (fun _ => true) (by decide +kernel)
  obtain ⟨p, m, hprepared, htask, htarget, hmodel⟩ := prepare_sevenChecker 4.0
  have hcomplete := complete_sevenBackend 4.0
  have hdecides := decides_sevenBackend
  rw [← htarget, ← hmodel] at hcomplete
  rw [← htarget] at hdecides
  have hgap : Time.Fits (lone.horizon.closes - p.task.deadline + 1) := by
    rw [htask]
    decide
  have hagree := strategies_agree (c := sevenChecker 4.0) isLeast_singleton (by decide) hgap
    hcomplete extensible_sevenBackend hdecides (leavesAlone_sevenChecker 4.0 .delay) hprepared
    hprepared h₁ h₂ (by simp) (by simp)
  rw [htask] at hagree
  obtain ⟨hfirst, hsecond, text, hread₁, hread₂⟩ := hagree.2 (by decide)
  exact ⟨.ok v₁, .ok v₂, w₁, w₂, text, h₁, h₂, hfirst, hsecond, hread₁, hread₂⟩

/-- A check breaks off with a fault. -/
def breaksOff : Except (Stop CheckError) Verdict → Bool
  | .error (.fault _) => true
  | _ => false

theorem ends_fault_of_breaksOff {act : Check Unit Verdict} {w : World Unit}
    (h : endsIn act w breaksOff) : ∃ w' f, Ends act w (.error (.fault f)) w' := by
  obtain ⟨r, w', hends, hr⟩ := exists_ends_of_endsIn act w breaksOff h
  unfold breaksOff at hr
  split at hr
  · exact ⟨w', _, hends⟩
  · simp at hr

/-- With a timeout factor that makes no duration out of a second, both strategies break off,
although all else is as before. -/
theorem strategies_break_off :
    ∃ p m r₁ r₂ w₁ w₂ f₁ f₂,
      Ends ((sevenChecker 1e20).prepare lone ⟨0, .null, []⟩) ⟨.empty, [], (), []⟩ (.ok (some p)) m ∧
      p.task.deadline < 7 ∧ 7 ≤ lone.horizon.closes ∧
      Time.Fits (lone.horizon.closes - p.task.deadline + 1) ∧
      BmcSearch.Complete (sevenChecker 1e20).backend "." (sevenChecker 1e20).options.bmc p.model
        p.target {7} ∧
      Decides (sevenChecker 1e20).backend p.target {7} ∧
      LeavesAlone (sevenChecker 1e20).backend (sevenChecker 1e20).combiner "." .delay ∧
      Ends ((sevenChecker 1e20).trusting.check lone ⟨0, .null, []⟩) ⟨.empty, [], (), []⟩ r₁ w₁ ∧
      Ends ((sevenChecker 1e20).exact.check lone ⟨0, .null, []⟩) ⟨.empty, [], (), []⟩ r₂ w₂ ∧
      r₁ = .error (.fault f₁) ∧ r₂ = .error (.fault f₂) := by
  obtain ⟨w₁, f₁, h₁⟩ : ∃ w f, Ends ((sevenChecker 1e20).trusting.check lone ⟨0, .null, []⟩)
      ⟨.empty, [], (), []⟩ (.error (.fault f)) w := ends_fault_of_breaksOff (by decide +kernel)
  obtain ⟨w₂, f₂, h₂⟩ : ∃ w f, Ends ((sevenChecker 1e20).exact.check lone ⟨0, .null, []⟩)
      ⟨.empty, [], (), []⟩ (.error (.fault f)) w := ends_fault_of_breaksOff (by decide +kernel)
  obtain ⟨p, m, hprepared, htask, htarget, hmodel⟩ := prepare_sevenChecker 1e20
  refine ⟨p, m, _, _, w₁, w₂, f₁, f₂, hprepared, ?_, by decide, ?_, ?_, ?_,
    leavesAlone_sevenChecker 1e20 .delay, h₁, h₂, rfl, rfl⟩
  · rw [htask]
    decide
  · rw [htask]
    decide
  · rw [htarget, hmodel]
    exact complete_sevenBackend 1e20
  · rw [htarget]
    exact decides_sevenBackend

end Checker

end Punctual
