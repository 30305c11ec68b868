import Punctual.Proofs.Check.Certificate
import Punctual.Proofs.Check.Decision

/-!
# Justified verdicts

Whatever the model checker answers, the verdict of a check rests on answers of this very check:
`Justified` lists what each kind of verdict needs, and `Sessions` when a session is opened. Both
speak about the exchanges of the check only (`check_justified`).

That bounded model checking missed the deadline is read off from the completions that it reported,
since a search has found the earliest of them. The timeout heuristic holds at the end of every
search that has found a completion (`heuristicTime_eq`), so trusting it decides whether it applies.
-/

namespace Punctual

variable {σ : Type}

/-! ## Exchanges by stage -/

/-- The task that a verdict is about. -/
def Verdict.task? : Verdict → Option Task
  | .noActiveTask => none
  | .feasible t _ _ => some t
  | .infeasible t _ _ => some t
  | .undetermined t => some t

/-- The exchange is the opening of a session. -/
def Exchange.isSession : Exchange → Bool
  | .session _ _ => true
  | _ => false

namespace Check

/-- All that the model checker is asked is whether targets can be reached. -/
def Queries (xs : List Exchange) : Prop :=
  ∀ x ∈ xs, ∃ target answer, x = .query target answer

section Queries

variable {xs ys : List Exchange} {r : Recorder} {g : Target} {asked : Answers} {es : List Event}

theorem queries_nil : Queries [] := by
  simp [Queries]

theorem Queries.append (h : Queries xs) (h' : Queries ys) : Queries (xs ++ ys) := by
  intro x hx
  exact (List.mem_append.1 hx).elim (h x) (h' x)

theorem queries_single (target : String) (answer : Except SolverError (Option String)) :
    Queries [.query target answer] := by
  intro x hx
  exact ⟨target, answer, List.mem_singleton.1 hx⟩

theorem Queries.completions (h : Queries xs) : completions xs = [] := by
  refine List.filterMap_eq_nil_iff.2 ?_
  intro x hx
  obtain ⟨target, answer, rfl⟩ := h x hx
  rfl

theorem Queries.noSession (h : Queries xs) : xs.countP Exchange.isSession = 0 := by
  refine List.countP_eq_zero.2 ?_
  intro x hx
  obtain ⟨target, answer, rfl⟩ := h x hx
  simp [Exchange.isSession]

theorem Recorded.queries (h : Recorded r g asked es) : Queries (Event.exchanges es) := by
  induction h with
  | nil => exact queries_nil
  | feasible path _ ih => exact (queries_single _ _).append ih
  | infeasible hdelay _ ih => exact (queries_single _ _).append ih

theorem Stopped.queries {deadline : Time} {stop : Stop CheckError}
    (h : Stopped r g deadline es stop) : Queries (Event.exchanges es) := by
  cases h with
  | unanswered e => exact queries_single _ _
  | unrecorded hfault => exact queries_single _ _
  | unwritten e hdelay => exact queries_single _ _

/-- All answers that are recorded were given. -/
theorem Recorded.answers (h : Recorded r g asked es) :
    ∀ p ∈ asked, ∃ path, Answered (Event.exchanges es) g p.1 path ∧ path.isSome = p.2 := by
  induction h with
  | nil => simp
  | feasible path _ ih => exact exists_answered_cons (some path) ih
  | infeasible hdelay _ ih => exact exists_answered_cons none ih

theorem Recorded.answered (h : Recorded r g asked es) {lower : Time}
    (hlower : (lower, false) ∈ asked) : Answered (Event.exchanges es) g lower none := by
  obtain ⟨path, hasked, hnone⟩ := h.answers _ hlower
  obtain rfl : path = none := by simpa using hnone
  exact hasked

/-- The infeasible deadline that a search ends with was answered without a path. -/
theorem Narrowing.answered_lower {deadline : Time} {b : DelayBounds}
    (h : Narrowing r g deadline asked b es) : Answered (Event.exchanges es) g b.lower none :=
  h.recorded.answered h.narrows.lower_mem

/-- The feasible deadline that a search ends with was answered with a path. -/
theorem Narrowing.answered_upper {deadline upper : Time} {b : DelayBounds}
    (h : Narrowing r g deadline asked b es) (hupper : b.upper = some upper) :
    ∃ path, Answered (Event.exchanges es) g upper (some path) := by
  rcases h.narrows.upper_eq_or_mem with hnone | ⟨u, hu, hmem⟩
  · simp [DelayBounds.ofDeadline, hupper] at hnone
  · obtain rfl := Option.some.inj (hupper.symm.trans hu)
    obtain ⟨path, hasked, hsome⟩ := h.recorded.answers _ (List.mem_cons_of_mem _ hmem)
    obtain ⟨path', rfl⟩ := Option.isSome_iff_exists.1 hsome
    exact ⟨path', hasked⟩

end Queries

end Check

namespace Checker

open Check

section Stages

variable {c : Checker σ} {r : Recorder} {g : Target} {t : Task} {found : BmcSearch}
  {modelPath : String} {es : List Event}

theorem exchanges_of_preparations (h : ∀ e ∈ es, IsPreparation e) : Event.exchanges es = [] := by
  refine List.filterMap_eq_nil_iff.2 ?_
  intro e he
  obtain ⟨a, text, rfl, -⟩ := h e he
  rfl

/-- A search opens no session. -/
theorem noSession_of_search {dir : String} {options : BmcOptions} {model : String}
    {point : BmcSearch} {result : Except (Stop CheckError) BmcSearch}
    (h : BmcSearch.SearchEvents dir options model g point es result) :
    (Event.exchanges es).countP Exchange.isSession = 0 := by
  refine List.countP_eq_zero.2 ?_
  intro x hx
  obtain ⟨-, last, answer, -, -, -, hrun⟩ := h.exists_run (Event.mem_exchanges.1 hx)
  obtain rfl : x = .run _ _ _ answer := by simpa [BmcSearch.runEvents] using hrun
  simp [Exchange.isSession]

theorem Decided.queries {result : Except (Stop CheckError) Verdict}
    (h : Decided c r g t es result) : Queries (Event.exchanges es) := by
  cases h with
  | undecided hstopped => exact hstopped.queries
  | feasible path => exact queries_single _ _
  | unwritten path e => exact queries_single _ _
  | assumed hassumed hrecorded hdelay => exact hrecorded.queries
  | delayed hnarrowing hupper hdelay => exact hnarrowing.recorded.queries
  | hopeless hnarrowing hlower => exact hnarrowing.recorded.queries
  | broken hnarrowing hbracket hstopped =>
      rw [Event.exchanges_append]
      exact hnarrowing.recorded.queries.append hstopped.queries
  | wide hnarrowing hupper hgap => exact hnarrowing.recorded.queries

/-- At the end of a search that has found a completion after the deadline, the timeout heuristic
holds. -/
theorem heuristicTime_eq {options : CheckOptions} (h : BmcSearch.IsPoint options.bmc g found) :
    heuristicTime options found =
      .ok (if options.trustHeuristic then found.finalTime else none) := by
  unfold heuristicTime
  cases options.trustHeuristic with
  | false => rfl
  | true =>
      rcases h with hnone | ⟨time, longest, hfinal, -, hlongest, hscale⟩
      · simp [BmcSearch.timeoutIsAmple, hnone]
      · have hle : found.timeout ≤ found.timeout := Nat.le_refl found.timeout.nanos
        have hample : found.timeoutIsAmple options.bmc.timeoutFactor = .ok true := by
          unfold BmcSearch.timeoutIsAmple
          rw [hfinal, hlongest]
          dsimp only
          rw [hscale]
          exact congrArg Except.ok (decide_eq_true hle)
        rw [if_pos rfl, hample, hfinal]
        rfl

theorem heuristicTime_eq_some_iff {options : CheckOptions}
    (h : BmcSearch.IsPoint options.bmc g found) {time : Time} :
    heuristicTime options found = .ok (some time) ↔
      options.trustHeuristic = true ∧ found.finalTime = some time := by
  rw [heuristicTime_eq h]
  simp

end Stages

/-! ## Justifications -/

/-- What the exchanges of a check say in favour of its verdict about a task. -/
inductive Justified (c : Checker σ) (g : Target) (t : Task) (xs : List Exchange) :
    Verdict → Prop
  /-- A run that completes the task in time was accepted. -/
  | completed {time : Time} (haccepted : Accepted xs time) (hmet : time ≤ t.deadline) :
      Justified c g t xs (.feasible t (some time) .bmc)
  /-- The deadline of the task can be met. -/
  | reached {path : String} (hasked : Answered xs g t.deadline (some path)) :
      Justified c g t xs (.feasible t (Output.finalTime path) .fullMc)
  /-- The deadline of the task cannot be met. -/
  | unreachable {delay : Option Time} {proof : InfeasibilityProof}
      (hproof : proof = .fullMc ∨ proof = .assumed) (hasked : Answered xs g t.deadline none) :
      Justified c g t xs (.infeasible t delay proof)
  /-- The timeout heuristic is trusted, and a run that completes the task too late was accepted. -/
  | trusted {time : Time} {delay : Option Time} (htrust : c.options.trustHeuristic = true)
      (haccepted : Accepted xs time) (hlate : t.deadline < time) :
      Justified c g t xs (.infeasible t delay .heuristic)
  /-- Full model checking is disabled. -/
  | disabled (hfallback : c.options.fallback = false) :
      Justified c g t xs (.undetermined t)

/-- At most one session is opened: if full model checking is enabled, no completion in time was
accepted, and no completion was accepted at all if the timeout heuristic is trusted. -/
structure Sessions (c : Checker σ) (t : Task) (xs : List Exchange) : Prop where
  atMostOne : xs.countP Exchange.isSession ≤ 1
  lastResort : ∀ x ∈ xs, x.isSession → c.options.fallback = true ∧
    (∀ time, Accepted xs time → t.deadline < time) ∧
      (c.options.trustHeuristic = true → ∀ time, ¬ Accepted xs time)

section Justified

variable {c : Checker σ} {r : Recorder} {g : Target} {t : Task} {xs : List Exchange}

theorem sessions_of_none (h : xs.countP Exchange.isSession = 0) : Sessions c t xs := by
  refine ⟨by omega, fun x hx hsession => ?_⟩
  exact absurd hsession (List.countP_eq_zero.1 h x hx)

/-- The verdict of a session rests on the answer about the deadline of the task. -/
theorem Decided.justified {es : List Event} {v : Verdict} (h : Decided c r g t es (.ok v))
    (hwithin : ∀ x ∈ Event.exchanges es, x ∈ xs) : v.task? = some t ∧ Justified c g t xs v := by
  cases h with
  | feasible path => exact ⟨rfl, .reached (hwithin _ List.mem_cons_self)⟩
  | assumed hassumed hrecorded hdelay =>
      have hasked := hrecorded.answered List.mem_cons_self
      exact ⟨rfl, .unreachable (.inr rfl) (hwithin _ hasked)⟩
  | delayed hnarrowing hupper hdelay =>
      have hasked := hnarrowing.recorded.answered List.mem_cons_self
      exact ⟨rfl, .unreachable (.inl rfl) (hwithin _ hasked)⟩
  | hopeless hnarrowing hlower =>
      have hasked := hnarrowing.recorded.answered List.mem_cons_self
      exact ⟨rfl, .unreachable (.inl rfl) (hwithin _ hasked)⟩

/-- If a search has missed the deadline, so have all completions. -/
theorem late_of_missed {found : BmcSearch} (hfound : found.finalTime = (completions xs).min?)
    (hmissed : found.meets t.deadline = false) {time : Time} (htime : time ∈ completions xs) :
    t.deadline < time := by
  cases hleast : (completions xs).min? with
  | none =>
      rw [List.min?_eq_none_iff.1 hleast] at htime
      simp at htime
  | some least =>
      rw [BmcSearch.meets, hfound, hleast] at hmissed
      have hlate : t.deadline < least := by simpa using hmissed
      exact Int.lt_of_lt_of_le hlate ((List.min?_eq_some_iff.1 hleast).2 time htime)

/-- A session and its questions report no completion. -/
theorem completions_of_session {xs ys : List Exchange} (h : Queries ys)
    (modelPath : String) (answer : Except SolverError Unit) :
    completions (xs ++ .session modelPath answer :: ys) = completions xs := by
  rw [completions_append, completions_cons, h.completions]
  simp [Exchange.completion?]

/-- After a search that missed the deadline, the verdict rests on what the search has found or on a
session. -/
theorem Inconclusive.justified {found : BmcSearch} {modelPath : String} {es : List Event}
    {v : Verdict} (h : Inconclusive c r g t found modelPath es (.ok v))
    (hpoint : BmcSearch.IsPoint c.options.bmc g found)
    (hfound : found.finalTime = (completions xs).min?)
    (hmissed : found.meets t.deadline = false)
    (hnone : xs.countP Exchange.isSession = 0) :
    v.task? = some t ∧ Justified c g t (xs ++ Event.exchanges es) v ∧
      Sessions c t (xs ++ Event.exchanges es) := by
  cases h with
  | @heuristic time lower delay htime hlower hdelay =>
      obtain ⟨htrust, hfinal⟩ := (heuristicTime_eq_some_iff hpoint).1 htime
      obtain ⟨hmem, hall⟩ := List.min?_eq_some_iff.1 (hfound.symm.trans hfinal)
      rw [Event.exchanges_wrote, Event.exchanges_nil, List.append_nil]
      exact ⟨rfl, .trusted htrust (accepted_of_least hmem hall)
        (late_of_missed hfound hmissed hmem), sessions_of_none hnone⟩
  | undetermined htime hfallback =>
      rw [Event.exchanges_nil, List.append_nil]
      exact ⟨rfl, .disabled hfallback, sessions_of_none hnone⟩
  | @decided es' _ htime hfallback hdecided =>
      have hqueries := hdecided.queries
      have hwithin : ∀ x ∈ Event.exchanges es',
          x ∈ xs ++ .session modelPath (.ok ()) :: Event.exchanges es' := by
        simp +contextual
      obtain ⟨htask, hjustified⟩ := hdecided.justified hwithin
      refine ⟨htask, hjustified, ?_, ?_⟩
      · have hopened : (Exchange.session modelPath (.ok ())).isSession = true := rfl
        refine Nat.le_of_eq (?_ : _ = 0 + (0 + 1))
        rw [Event.exchanges_asked, List.countP_append, hnone, List.countP_cons_of_pos hopened,
          hqueries.noSession]
      · intro x hx hsession
        have hreported {time : Time}
            (haccepted : Accepted (xs ++ .session modelPath (.ok ()) :: Event.exchanges es')
              time) : time ∈ completions xs := by
          rw [← completions_of_session hqueries modelPath (.ok ())]
          exact haccepted.mem
        refine ⟨hfallback, ?_, ?_⟩
        · intro time haccepted
          exact late_of_missed hfound hmissed (hreported haccepted)
        · intro htrust time haccepted
          have hfinal : found.finalTime = none := by
            rw [heuristicTime_eq hpoint] at htime
            simpa [htrust] using htime
          have hempty := List.min?_eq_none_iff.1 (hfound.symm.trans hfinal)
          have hmem := hreported haccepted
          rw [hempty] at hmem
          simp at hmem

theorem TaskCourse.justified {es : List Event} {v : Verdict} (h : TaskCourse c r g t es (.ok v))
    (hdeadline : g.deadline = t.deadline) :
    v.task? = some t ∧ Justified c g t (Event.exchanges es) v ∧
      Sessions c t (Event.exchanges es) := by
  cases h with
  | @met es es₁ model found trace hprep hsearch hmeets htrace =>
      have hexchanges : Event.exchanges
          (es ++ es₁ ++ [.wrote .path (Artifact.traceText trace)]) = Event.exchanges es₁ := by
        simp [exchanges_of_preparations hprep]
      have hleast : found.finalTime = (completions (Event.exchanges es₁)).min? :=
        hsearch.finalTime_eq
      obtain ⟨time, hfinal, hmet⟩ := (Option.any_eq_true _ _).1 hmeets
      obtain ⟨hmem, hall⟩ := List.min?_eq_some_iff.1 (hleast.symm.trans hfinal)
      rw [hexchanges, hfinal]
      exact ⟨rfl, .completed (accepted_of_least hmem hall) (of_decide_eq_true hmet),
        sessions_of_none (noSession_of_search hsearch)⟩
  | @inconclusive es es₁ es₂ model modelPath found _ hprep hsearch hmissed hinconclusive =>
      have hpoint := hsearch.isPoint_of_missed (by rwa [hdeadline])
      simp only [Event.exchanges_append, exchanges_of_preparations hprep, List.nil_append]
      exact hinconclusive.justified hpoint hsearch.finalTime_eq hmissed
        (noSession_of_search hsearch)

end Justified

section Check

variable {c : Checker σ} {s : Schedule} {state : PlantState} {w w' : World σ}

/-- The verdict of a check is about the first due of the candidates, if there is one, and it rests
on the exchanges of the check. -/
theorem check_justified {v : Verdict} (h : Ends (c.check s state) w (.ok v) w') :
    ∃ xs, w'.exchanges = w.exchanges ++ xs ∧
      (v = .noActiveTask ↔
        ∀ t ∈ s.units.tasks, ¬ Schedule.isCandidate state.time c.options.keyUnit t) ∧
      (v = .noActiveTask → xs = []) ∧
      (v ≠ .noActiveTask → ∃ earlier t,
        s.Selects state.time c.options.keyUnit earlier t ∧ v.task? = some t ∧
          Justified c (Schedule.occurrence earlier t) t xs v ∧ Sessions c t xs) := by
  cases check_course h with
  | @marked tree es _ _ hstore hcourse hcheck =>
      refine ⟨Event.exchanges es, hcourse.exchanges_eq, ?_⟩
      cases hcheck with
      | idle hnone => exact ⟨iff_of_true rfl hnone, fun _ => rfl, fun hne => absurd rfl hne⟩
      | @task earlier t es' result hselects htask =>
          obtain ⟨htask?, hjustified, hsessions⟩ := htask.justified rfl
          have hne : v ≠ .noActiveTask := by
            rintro rfl
            simp [Verdict.task?] at htask?
          refine ⟨iff_of_false hne ?_, fun heq => absurd heq hne, ?_⟩
          · intro hnone
            exact hnone t hselects.mem hselects.firstDue.holds
          · intro _
            exact ⟨earlier, t, hselects, htask?, hjustified, hsessions⟩

end Check

/-- A checker that leaves all to a model checker that finds a path to every target. -/
def carefree : Checker Unit where
  backend := agreeable
  combiner := fun _ _ tree solver => ⟨.ok "MODULE main", [], tree, solver⟩
  metadata := none
  options := ⟨none, .default, true, false, .none, []⟩
  dir := "."

/-- A check whose task is feasible by full model checking. -/
theorem check_justified_carefree :
    ∃ v w', Ends (carefree.check lone ⟨0, .null, []⟩) ⟨.empty, [], (), []⟩ (.ok v) w' ∧
      v.isFeasible ∧ ∃ earlier t, lone.Selects 0 none earlier t ∧ v.task? = some t ∧
        Justified carefree (Schedule.occurrence earlier t) t w'.exchanges v ∧
          Sessions carefree t w'.exchanges := by
  obtain ⟨r, w', h, hr⟩ := exists_ends_of_endsIn (carefree.check lone ⟨0, .null, []⟩)
    ⟨.empty, [], (), []⟩ (fun r => r.toOption.any Verdict.isFeasible) (by decide +kernel)
  cases r with
  | error stop => simp [Except.toOption] at hr
  | ok v =>
      obtain ⟨xs, hxs, -, -, htask⟩ := check_justified h
      obtain rfl : w'.exchanges = xs := hxs
      have hne : v ≠ .noActiveTask := by
        rintro rfl
        simp [Except.toOption, Verdict.isFeasible] at hr
      exact ⟨v, w', h, hr, htask hne⟩

end Checker

end Punctual
