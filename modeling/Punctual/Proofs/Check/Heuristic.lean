import Punctual.Proofs.Check.Agreement

/-!
# The timeout heuristic

The timeout heuristic asks whether the last timeout was at least a multiple of the longest time that
a refutation took. Every run after the first one gets exactly this multiple as its timeout, so the
question is settled before it is asked: a search that ends with a completion after the deadline has
made such a run, whatever made it end, and the heuristic holds. This does not depend on how the
multiple is formed (`ends_searchBy_late`).

A check that trusts the heuristic therefore declares a task infeasible as soon as its search ends
with a completion after the deadline (`late_completion_settles`).
-/

namespace Punctual

variable {σ : Type}

namespace BmcSearch

/-! ## Searches with any rule for the next timeout -/

/-- How the timeout of the next run follows from the longest refutation. -/
abbrev TimeoutRule := Duration → Except Fault Duration

/-- The search with the timeout of the next run. -/
def extendTimeoutBy (rule : TimeoutRule) (s : BmcSearch) : Except Fault BmcSearch :=
  match s.longest? with
  | none => .ok s
  | some longest => do return { s with timeout := ← rule longest }

/-- The last timeout was at least what the rule makes of the longest refutation. -/
def timeoutIsAmpleBy (rule : TimeoutRule) (s : BmcSearch) : Except Fault Bool :=
  match s.finalTime, s.longest? with
  | some _, some longest => do
    let enough ← rule longest
    return decide (enough ≤ s.timeout)
  | _, _ => .ok false

/-- Searches for completions before `known`, which lies after the deadline. -/
def searchBeforeBy (rule : TimeoutRule) (backend : Backend σ) (dir : String)
    (options : BmcOptions) (model : String) (target : Target) (known : Time) (s : BmcSearch) :
    Check σ BmcSearch := do
  match ← run backend dir options model (target.notCompletedBefore known) s.timeout with
  | .inconclusive _ => return s
  | .refuted time trace elapsed =>
    if _hlate : known ≤ time then
      Check.warn ("Solver reported completion at " ++ toString time ++
        ", which is not earlier than the known completion, stopping search")
      return s
    else if _hmeets : time ≤ target.deadline then acceptReported s time trace elapsed
    else do
      let s ← acceptReported s time trace elapsed
      let s ← Action.ofFault (s.extendTimeoutBy rule)
      searchBeforeBy rule backend dir options model target time s
termination_by (known - target.deadline).toNat
decreasing_by
  have hearlier := Int.not_le.1 _hlate
  have hmissed := Int.not_le.1 _hmeets
  omega

/-- Searches for the earliest completion of a target in a model. -/
def searchBy (rule : TimeoutRule) (backend : Backend σ) (dir : String) (options : BmcOptions)
    (model : String) (target : Target) : Check σ BmcSearch := do
  let s := start options.baseTimeout
  match ← run backend dir options model target.neverCompletes s.timeout with
  | .inconclusive _ => return s
  | .refuted time trace elapsed =>
    let s ← acceptReported s time trace elapsed
    if time ≤ target.deadline then return s
    else
      let s ← Action.ofFault (s.extendTimeoutBy rule)
      searchBeforeBy rule backend dir options model target time s

section Rules

variable {rule : TimeoutRule} {backend : Backend σ} {dir : String} {options : BmcOptions}
  {model : String} {target : Target} {known time : Time} {s found : BmcSearch} {w w' : World σ}

theorem searchBefore_eq_searchBeforeBy :
    searchBefore backend dir options model target known s =
      searchBeforeBy (·.scale options.timeoutFactor) backend dir options model target known s := by
  fun_induction searchBefore backend dir options model target known s with
  | case1 known s ih =>
      unfold searchBeforeBy
      refine bind_congr fun result => ?_
      cases result with
      | inconclusive reports => rfl
      | refuted time trace elapsed =>
          dsimp only
          split
          · rfl
          · next hearlier =>
              split
              · rfl
              · next hmissed =>
                  refine bind_congr fun next => bind_congr fun next' => ?_
                  exact ih time hearlier hmissed next'

/-- The search of a check takes the multiple of the longest refutation. -/
theorem search_eq_searchBy :
    search backend dir options model target =
      searchBy (·.scale options.timeoutFactor) backend dir options model target := by
  unfold search searchBy
  simp only [searchBefore_eq_searchBeforeBy]
  rfl

/-- What holds before every run but the first: a completion is known, and the timeout of the run is
what the rule makes of the longest refutation. -/
def Extended (rule : TimeoutRule) (known : Time) (s : BmcSearch) : Prop :=
  s.finalTime = some known ∧ ∃ longest, s.longest? = some longest ∧ rule longest = .ok s.timeout

theorem Extended.timeoutIsAmpleBy (h : Extended rule known s) :
    s.timeoutIsAmpleBy rule = .ok true := by
  obtain ⟨hfinal, longest, hlongest, hrule⟩ := h
  have hle : s.timeout ≤ s.timeout := Nat.le_refl s.timeout.nanos
  unfold BmcSearch.timeoutIsAmpleBy
  rw [hfinal, hlongest]
  dsimp only
  rw [hrule]
  exact congrArg Except.ok (decide_eq_true hle)

/-- The timeout after an accepted completion is that of a further run. -/
theorem extended_of_extendTimeoutBy {trace : List String} {elapsed : Duration} {next : BmcSearch}
    (h : (s.accept time trace elapsed).extendTimeoutBy rule = .ok next) :
    Extended rule time next := by
  obtain ⟨longest, hlongest⟩ : ∃ longest, (s.accept time trace elapsed).longest? = some longest := by
    cases hsolve : s.solveTimes with
    | nil => exact ⟨elapsed, by simp [longest?, accept, hsolve, Duration.longest?]⟩
    | cons d ds => exact ⟨_, by simp [longest?, accept, hsolve, Duration.longest?]; rfl⟩
  unfold extendTimeoutBy at h
  rw [hlongest] at h
  obtain ⟨timeout, hrule, hnext⟩ := except_bind_eq_ok.1 h
  obtain rfl := except_pure_eq_ok.1 hnext
  exact ⟨rfl, longest, hlongest, hrule⟩

/-- A search ends with a completion in time, or as it was before its last run. -/
theorem ends_searchBeforeBy (hs : Extended rule known s)
    (h : Ends (searchBeforeBy rule backend dir options model target known s) w (.ok found) w') :
    found.meets target.deadline ∨ ∃ known, Extended rule known found := by
  fun_induction searchBeforeBy rule backend dir options model target known s generalizing w
  case case1 known s ih =>
    obtain ⟨result, m, -, hnext⟩ := ends_bind_ok.1 h
    cases result with
    | inconclusive reports =>
        obtain ⟨rfl, -⟩ := ends_pure_ok.1 hnext
        exact .inr ⟨known, hs⟩
    | refuted time trace elapsed =>
        dsimp only at hnext
        split at hnext
        · rw [ends_warn_bind] at hnext
          obtain ⟨rfl, -⟩ := ends_pure_ok.1 hnext
          exact .inr ⟨known, hs⟩
        · next hearlier =>
            split at hnext
            · next hmet =>
                obtain ⟨hfound, -⟩ := ends_acceptReported hnext
                obtain rfl := Except.ok.inj hfound
                exact .inl (meets_accept hmet)
            · next hmissed =>
                obtain ⟨reports, hextend⟩ := ends_acceptReported_bind hnext
                rcases ends_ofFault_bind.1 hextend with ⟨next, hrule, hrest⟩ | ⟨f, -, hstop, -⟩
                · exact ih time hearlier hmissed next (extended_of_extendTimeoutBy hrule) hrest
                · simp at hstop

/-- The heuristic holds at the end of every search with a completion after the deadline, whatever
the rule for the next timeout is. -/
theorem ends_searchBy_late
    (h : Ends (searchBy rule backend dir options model target) w (.ok found) w')
    (hfinal : found.finalTime = some time) (hlate : target.deadline < time) :
    found.timeoutIsAmpleBy rule = .ok true := by
  have hmissed : ¬ found.meets target.deadline := by simpa [meets, hfinal] using hlate
  obtain ⟨result, m, -, hnext⟩ := ends_bind_ok.1 h
  cases result with
  | inconclusive reports =>
      obtain ⟨rfl, -⟩ := ends_pure_ok.1 hnext
      simp [start] at hfinal
  | refuted time' trace elapsed =>
      obtain ⟨reports, hextend⟩ := ends_acceptReported_bind hnext
      split at hextend
      · next hmet =>
          obtain ⟨rfl, -⟩ := ends_pure_ok.1 hextend
          exact absurd (meets_accept hmet) hmissed
      · rcases ends_ofFault_bind.1 hextend with ⟨next, hrule, hrest⟩ | ⟨f, -, hstop, -⟩
        · rcases ends_searchBeforeBy (extended_of_extendTimeoutBy hrule) hrest with
            hmeets | ⟨known, hextended⟩
          · exact absurd hmeets hmissed
          · exact hextended.timeoutIsAmpleBy
        · simp at hstop

theorem timeoutIsAmple_eq (s : BmcSearch) (factor : Float) :
    s.timeoutIsAmple factor = s.timeoutIsAmpleBy (·.scale factor) :=
  rfl

end Rules

end BmcSearch

/-! ## Records -/

section Records

variable {r : Recorder} {lower : Time} {w w' : World σ} {result : Except (Stop CheckError) Time}

theorem Recorder.silent_record (r : Recorder) (lower : Time) :
    Check.Silent (r.record lower : Check σ Time) := by
  refine (Check.silent_ofFault _).bind fun delay => Check.Harmless.silent ?_
  refine (Check.harmless_write _ _ _).bind fun _ => ?_
  exact (Check.harmless_report _ _).bind fun _ => Check.harmless_pure _

/-- A delay in range is recorded, unless the record cannot be written. -/
theorem Recorder.ends_record (h : Ends (r.record lower) w result w') :
    (∀ f, delayAfter lower r.task.deadline = .error f → result = .error (.fault f)) ∧
      ∀ delay, delayAfter lower r.task.deadline = .ok delay →
        (∀ tree, Artifact.store w.tree r.dir .delay (r.entry delay).text = .ok tree →
          result = .ok delay) ∧
        ∀ e, Artifact.store w.tree r.dir .delay (r.entry delay).text = .error e →
          result = .error (.error e) := by
  unfold record at h
  rcases ends_ofFault_bind.1 h with ⟨delay, hdelay, hrest⟩ | ⟨f, hfault, rfl, -⟩
  · rw [hdelay]
    refine ⟨by simp, ?_⟩
    rintro _ ⟨⟩
    rcases ends_bind.1 hrest with ⟨path, m, hwrite, hlast⟩ | ⟨stop, rfl, hwrite⟩
    · rw [ends_info_bind] at hlast
      obtain ⟨rfl, -⟩ := ends_pure.1 hlast
      refine ⟨fun tree _ => rfl, fun e hstore => ?_⟩
      exact absurd (hwrite.unique (write_ends_error hstore)).1 (by simp)
    · refine ⟨fun tree hstore => ?_, fun e hstore => ?_⟩
      · exact absurd (hwrite.unique (write_ends_ok hstore)).1 (by simp)
      · exact congrArg Except.error (Except.error.inj (hwrite.unique (write_ends_error hstore)).1)
  · rw [hfault]
    simp

end Records

namespace Checker

open Check

/-! ## Checks that trust the heuristic -/

/-- Writes the model that was combined and searches it for the earliest completion. -/
def seek (c : Checker σ) (p : Prepared) : Check σ (String × BmcSearch) := do
  let path ← Artifact.write c.dir .combined p.model
  Check.info ("Combined model of task " ++ p.task.text ++ " written to " ++ path)
  let found ← BmcSearch.search c.backend c.dir c.options.bmc p.model p.target
  return (path, found)

theorem conclude_eq (c : Checker σ) (s : Schedule) (state : PlantState) (p : Prepared) :
    c.conclude s state p = c.seek p >>= fun (path, found) =>
      c.judgeSearch s state p.counts p.task path found := by
  simp only [conclude, seek, bind_assoc, pure_bind]

section Trusting

variable {c : Checker σ} {s : Schedule} {state : PlantState} {counts : Counts} {t : Task}
  {p : Prepared} {path : String} {found : BmcSearch} {time : Time} {w w' m m' : World σ}
  {result : Except (Stop CheckError) Verdict}

/-- After its preparation and its search, a check is decided by what the search has found. -/
theorem ends_judgeSearch_of_seek (hprepared : Ends (c.prepare s state) w (.ok (some p)) m)
    (hsought : Ends (c.seek p) m (.ok (path, found)) m')
    (h : Ends (c.check s state) w result w') :
    Ends (c.judgeSearch s state p.counts p.task path found) m' result w' := by
  have hconclude := ends_conclude_of_prepare hprepared h
  rw [conclude_eq] at hconclude
  rcases ends_bind.1 hconclude with ⟨sought, m₂, hsought', hrest⟩ | ⟨stop, -, hstopped⟩
  · obtain ⟨heq, rfl⟩ := hsought'.unique hsought
    obtain rfl := Except.ok.inj heq
    exact hrest
  · exact absurd (hstopped.unique hsought).1 (by simp)

/-- The search of a check begins after the model is written. -/
theorem exists_search_of_seek (h : Ends (c.seek p) m (.ok (path, found)) m') :
    ∃ m₁, m₁.exchanges = m.exchanges ∧
      Ends (BmcSearch.search c.backend c.dir c.options.bmc p.model p.target) m₁ (.ok found) m' := by
  obtain ⟨path', m₁, hwrite, hrest⟩ := ends_bind_ok.1 h
  rw [ends_info_bind] at hrest
  obtain ⟨found', m₂, hsearch, hlast⟩ := ends_bind_ok.1 hrest
  obtain ⟨heq, rfl⟩ := ends_pure_ok.1 hlast
  obtain ⟨rfl, rfl⟩ := Prod.mk.inj heq
  have hsilent : m₁.exchanges = m.exchanges := (harmless_write _ _ _).silent _ _ _ hwrite
  refine ⟨_, ?_, hsearch⟩
  exact hsilent

/-- A trusted heuristic that holds declares the task infeasible. -/
theorem heuristicTime_of_ample {options : CheckOptions} (htrust : options.trustHeuristic = true)
    (hample : found.timeoutIsAmple options.bmc.timeoutFactor = .ok true) :
    heuristicTime options found = .ok found.finalTime := by
  unfold heuristicTime
  rw [if_pos htrust, hample]
  rfl

/-- What follows the heuristic is the record of the delay, and nothing else. -/
theorem ends_record_of_heuristic (hheuristic : heuristicTime c.options found = .ok (some time))
    (hlower : Time.sub time 1 = .ok (time - 1))
    (h : Ends (c.decideInconclusive s state counts t path found) w result w') :
    ∃ reports, Ends (do
      let delay ← (Recorder.ofTask c.dir s state t).record (time - 1)
      return .infeasible t (some delay) .heuristic) (w.logged reports) result w' := by
  unfold decideInconclusive at h
  rw [hheuristic, ends_ofFault_ok_bind] at h
  dsimp only at h
  rw [ends_warn_bind, hlower, ends_ofFault_ok_bind] at h
  exact ⟨_, h⟩

/-- The delay of the heuristic is the distance from the deadline to the completion. -/
theorem delayAfter_of_late {deadline : Time} (hlate : deadline < time) :
    Recorder.delayAfter (time - 1) deadline = .ok (time - deadline) ↔
      Time.Fits (time - deadline) := by
  have hbefore : deadline ≤ time - 1 := Int.le_sub_one_of_lt hlate
  have hdelay : time - 1 - deadline + 1 = time - deadline := by
    dsimp only [Time] at *
    omega
  rw [Recorder.delayAfter_eq_ok_iff hbefore, hdelay]
  simp

/-- A check that trusts the heuristic about a completion declares the task infeasible, unless the
delay is out of range or cannot be recorded. It asks nothing more. -/
theorem ends_decideInconclusive_trusting
    (hheuristic : heuristicTime c.options found = .ok (some time))
    (hlower : Time.sub time 1 = .ok (time - 1)) (hlate : t.deadline < time)
    (h : Ends (c.decideInconclusive s state counts t path found) w result w') :
    w'.exchanges = w.exchanges ∧
      (Time.Fits (time - t.deadline) →
        let text := ((Recorder.ofTask c.dir s state t).entry (time - t.deadline)).text
        (∀ tree, Artifact.store w.tree c.dir .delay text = .ok tree →
          result = .ok (.infeasible t (some (time - t.deadline)) .heuristic)) ∧
        ∀ e, Artifact.store w.tree c.dir .delay text = .error e →
          result = .error (.error e)) ∧
      (¬ Time.Fits (time - t.deadline) → ∃ f, result = .error (.fault f)) := by
  obtain ⟨reports, hrest⟩ := ends_record_of_heuristic hheuristic hlower h
  obtain ⟨recorded, hrecord, rfl⟩ := ends_bind_pure.1 hrest
  obtain ⟨hfault, hrecorded⟩ := Recorder.ends_record hrecord
  have hsilent : w'.exchanges = (w.logged reports).exchanges :=
    Recorder.silent_record _ _ _ _ _ hrecord
  refine ⟨hsilent, fun hfits => ?_, fun hwide => ?_⟩
  · obtain ⟨hstored, hunwritten⟩ := hrecorded _ ((delayAfter_of_late hlate).2 hfits)
    refine ⟨fun tree hstore => ?_, fun e hstore => ?_⟩
    · rw [hstored tree hstore]
      rfl
    · rw [hunwritten e hstore]
      rfl
  · cases hdelay : Recorder.delayAfter (time - 1) t.deadline with
    | ok delay =>
        have hbefore : t.deadline ≤ time - 1 := Int.le_sub_one_of_lt hlate
        obtain rfl : delay = time - t.deadline := by
          rw [Recorder.eq_of_delayAfter hbefore hdelay, Int.sub_add_cancel]
        exact absurd ((delayAfter_of_late hlate).1 hdelay) hwide
    | error f =>
        rw [hfault f hdelay]
        exact ⟨f, rfl⟩

/-- A search asks for nothing but runs. -/
theorem runs_of_search {dir : String} {options : BmcOptions} {model : String} {g : Target}
    {point : BmcSearch} {es : List Event} {r : Except (Stop CheckError) BmcSearch}
    (h : BmcSearch.SearchEvents dir options model g point es r) :
    ∀ x ∈ Event.exchanges es, ∃ model n timeout answer, x = .run model n timeout answer := by
  intro x hx
  obtain ⟨-, last, answer, -, -, -, hrun⟩ := h.exists_run (Event.mem_exchanges.1 hx)
  exact ⟨_, _, _, answer, by simpa [BmcSearch.runEvents] using hrun⟩

/-- What a search of a check has found: the earliest completion that was reported to it. -/
theorem completions_of_seek (h : Ends (c.seek p) m (.ok (path, found)) m') :
    ∃ xs, m'.exchanges = m.exchanges ++ xs ∧ found.finalTime = (completions xs).min? ∧
      ∀ x ∈ xs, ∃ model n timeout answer, x = .run model n timeout answer := by
  obtain ⟨m₁, hm₁, hsearch⟩ := exists_search_of_seek h
  obtain ⟨es, hevents, hcourse⟩ := BmcSearch.search_course c.combiner hsearch
  refine ⟨Event.exchanges es, ?_, hevents.finalTime_eq, runs_of_search hevents⟩
  rw [hcourse.exchanges_eq, hm₁]

/-- The heuristic never turns down a completion after the deadline. Whatever the rule for the next
timeout is and whatever ends the search, it holds once such a completion is found. A check that
trusts it therefore declares the task infeasible by the distance of the completion, if this is in
range and can be recorded, and asks for nothing but bounded model checking. -/
theorem late_completion_settles (htrust : c.options.trustHeuristic = true)
    (hprepared : Ends (c.prepare s state) w (.ok (some p)) m)
    (hsought : Ends (c.seek p) m (.ok (path, found)) m')
    (hfinal : found.finalTime = some time) (hlate : p.task.deadline < time)
    (h : Ends (c.check s state) w result w') :
    (∀ (rule : BmcSearch.TimeoutRule) (backend : Backend σ) (dir : String) (options : BmcOptions)
        (model : String) (target : Target) (found : BmcSearch) (time : Time) (w w' : World σ),
      Ends (BmcSearch.searchBy rule backend dir options model target) w (.ok found) w' →
        found.finalTime = some time → target.deadline < time →
          found.timeoutIsAmpleBy rule = .ok true) ∧
      found.timeoutIsAmple c.options.bmc.timeoutFactor = .ok true ∧
      (∃ xs, w'.exchanges = w.exchanges ++ xs ∧
        ∀ x ∈ xs, ∃ model n timeout answer, x = .run model n timeout answer) ∧
      (Time.Fits (time - p.task.deadline) →
        let text := ((Recorder.ofTask c.dir s state p.task).entry (time - p.task.deadline)).text
        (∀ tree, Artifact.store m'.tree c.dir .delay text = .ok tree →
          result = .ok (.infeasible p.task (some (time - p.task.deadline)) .heuristic)) ∧
        ∀ e, Artifact.store m'.tree c.dir .delay text = .error e →
          result = .error (.error e)) ∧
      (¬ Time.Fits (time - p.task.deadline) → ∃ f, result = .error (.fault f)) := by
  obtain ⟨-, -, htarget⟩ := admissible_of_prepare hprepared
  obtain ⟨m₁, -, hsearch⟩ := exists_search_of_seek hsought
  obtain ⟨xs, hxs, hleast, hruns⟩ := completions_of_seek hsought
  have hample : found.timeoutIsAmple c.options.bmc.timeoutFactor = .ok true := by
    rw [BmcSearch.search_eq_searchBy] at hsearch
    rw [BmcSearch.timeoutIsAmple_eq]
    refine BmcSearch.ends_searchBy_late hsearch hfinal ?_
    rwa [htarget]
  have hheuristic : heuristicTime c.options found = .ok (some time) := by
    rw [heuristicTime_of_ample htrust hample, hfinal]
  have hmissed : found.meets p.task.deadline = false := by
    simpa [BmcSearch.meets, hfinal] using hlate
  have hlower : Time.sub time 1 = .ok (time - 1) := by
    obtain ⟨hnonneg, hfits⟩ := nonneg_of_mem_completions (List.min?_mem (hleast.symm.trans hfinal))
    exact Time.sub_one_eq_ok hnonneg hfits
  have hjudge := ends_decideInconclusive hmissed (ends_judgeSearch_of_seek hprepared hsought h)
  obtain ⟨hexchanges, hverdict⟩ := ends_decideInconclusive_trusting hheuristic hlower hlate hjudge
  refine ⟨?_, hample, ⟨xs, ?_, hruns⟩, hverdict⟩
  · intro rule backend dir options model target found time w w' hends hfound htime
    exact BmcSearch.ends_searchBy_late hends hfound htime
  · rw [hexchanges, hxs, silent_prepare c s state _ _ _ hprepared]

end Trusting

/-- What is prepared, and what the search finds. -/
def seekPrepared (c : Checker σ) (s : Schedule) (state : PlantState) :
    Check σ (Option (Prepared × String × BmcSearch)) := do
  match ← c.prepare s state with
  | none => return none
  | some p => return some (p, ← c.seek p)

theorem ends_seekPrepared_some {c : Checker σ} {s : Schedule} {state : PlantState} {p : Prepared}
    {path : String} {found : BmcSearch} {w m' : World σ}
    (h : Ends (c.seekPrepared s state) w (.ok (some (p, path, found))) m') :
    ∃ m, Ends (c.prepare s state) w (.ok (some p)) m ∧
      Ends (c.seek p) m (.ok (path, found)) m' := by
  obtain ⟨prepared, m, hprepared, hrest⟩ := ends_bind_ok.1 h
  cases prepared with
  | none => exact absurd (ends_pure_ok.1 hrest).1 (by simp)
  | some p' =>
      obtain ⟨sought, m₁, hsought, hlast⟩ := ends_bind_ok.1 hrest
      obtain ⟨heq, rfl⟩ := ends_pure_ok.1 hlast
      obtain ⟨rfl, rfl⟩ := Prod.mk.inj (Option.some.inj heq)
      exact ⟨m, hprepared, hsought⟩

/-- The heuristic declares the task infeasible whose only completion is two time steps late. -/
theorem late_completion_settles_seven :
    ∃ p m path found m' v w',
      Ends ((sevenChecker 4.0).trusting.prepare lone ⟨0, .null, []⟩) ⟨.empty, [], (), []⟩
        (.ok (some p)) m ∧
      Ends ((sevenChecker 4.0).trusting.seek p) m (.ok (path, found)) m' ∧
      Ends ((sevenChecker 4.0).trusting.check lone ⟨0, .null, []⟩) ⟨.empty, [], (), []⟩ (.ok v) w' ∧
      found.timeoutIsAmple 4.0 = .ok true ∧ v = .infeasible loneTask (some 2) .heuristic := by
  obtain ⟨sought, m', hsought, hfound⟩ := exists_ends_ok_of_endsIn
    ((sevenChecker 4.0).trusting.seekPrepared lone ⟨0, .null, []⟩) ⟨.empty, [], (), []⟩
    (Option.any fun sought => sought.1.task = loneTask ∧ sought.2.2.finalTime = some 7)
    (by decide +kernel)
  obtain ⟨v, w', h, -⟩ := exists_ends_ok_of_endsIn
    ((sevenChecker 4.0).trusting.check lone ⟨0, .null, []⟩) ⟨.empty, [], (), []⟩
    (fun _ => true) (by decide +kernel)
  obtain ⟨⟨p, path, found⟩, rfl, hfound⟩ := (Option.any_eq_true _ _).1 hfound
  obtain ⟨htask, hfinal⟩ := of_decide_eq_true hfound
  obtain ⟨m, hprepared, hsought⟩ := ends_seekPrepared_some hsought
  have hlate : p.task.deadline < 7 := by
    rw [htask]
    decide
  obtain ⟨-, hample, -, hfits, -⟩ := late_completion_settles rfl hprepared hsought hfinal hlate h
  have hrange : Time.Fits (7 - p.task.deadline) := by
    rw [htask]
    decide
  obtain ⟨hstored, hunwritten⟩ := hfits hrange
  refine ⟨p, m, path, found, m', v, w', hprepared, hsought, h, hample, ?_⟩
  rcases hstore : Artifact.store m'.tree "." .delay ((Recorder.ofTask "." lone ⟨0, .null, []⟩
    p.task).entry (7 - p.task.deadline)).text with e | tree
  · exact absurd (hunwritten e hstore) (by simp)
  · rw [Except.ok.inj (hstored tree hstore), htask]
    rfl

end Checker

end Punctual
