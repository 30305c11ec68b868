import Punctual.Check.Completion
import Punctual.Proofs.Check.Course

/-!
# Courses of the search for an early completion

A search is at any time given by what it has found and by the timeout of its next run. `Searching`
relates two such points with accepted completions between them, and `SearchEnds` says how the last
run of a search ends it. Every search is the one followed by the other (`search_course`), whatever
the model checker answers and however the search ends.
-/

namespace Punctual

/-! ## Completions -/

/-- The completion time that the answer to a run reports, if it refutes the claim. -/
def BmcAnswer.completion? (answer : BmcAnswer) : Option Time :=
  if answer.elapsed.isSome && Output.isRefuted (Text.decodeLossy answer.output) then
    Output.finalTime (Text.decodeLossy answer.output)
  else none

theorem BmcAnswer.elapsed_of_completion? (answer : BmcAnswer) {time : Time}
    (h : answer.completion? = some time) : ∃ elapsed, answer.elapsed = some elapsed := by
  unfold completion? at h
  cases helapsed : answer.elapsed with
  | none => simp [helapsed] at h
  | some elapsed => exact ⟨elapsed, rfl⟩

/-- The completion time that an exchange reports. -/
def Exchange.completion? : Exchange → Option Time
  | .run _ _ _ (.ok answer) => answer.completion?
  | _ => none

/-- The completion times that are reported, in order. -/
def completions (xs : List Exchange) : List Time :=
  xs.filterMap Exchange.completion?

@[simp] theorem completions_nil : completions [] = [] := rfl

theorem completions_cons (x : Exchange) (xs : List Exchange) :
    completions (x :: xs) = x.completion?.toList ++ completions xs := by
  unfold completions
  rw [List.filterMap_cons]
  split <;> simp [*]

theorem completions_append (xs ys : List Exchange) :
    completions (xs ++ ys) = completions xs ++ completions ys :=
  List.filterMap_append

/-- A run reported a completion that is earlier than all that were reported before. -/
def Accepted (xs : List Exchange) (time : Time) : Prop :=
  ∃ before x after, xs = before ++ x :: after ∧ x.completion? = some time ∧
    ∀ c ∈ completions before, time < c

theorem Accepted.mem {xs : List Exchange} {time : Time} (h : Accepted xs time) :
    time ∈ completions xs := by
  obtain ⟨before, x, after, rfl, hx, -⟩ := h
  exact List.mem_filterMap.2 ⟨x, by simp, hx⟩

/-- The earliest completion was accepted when it was first reported. -/
theorem accepted_of_least {xs : List Exchange} {time : Time} (hmem : time ∈ completions xs)
    (hleast : ∀ c ∈ completions xs, time ≤ c) : Accepted xs time := by
  induction xs with
  | nil => simp at hmem
  | cons x xs ih =>
      rw [completions_cons] at hmem hleast
      by_cases hx : x.completion? = some time
      · exact ⟨[], x, xs, rfl, hx, by simp⟩
      · have htail : time ∈ completions xs := by
          rcases List.mem_append.1 hmem with hhead | htail
          · exact absurd (Option.mem_toList.1 hhead) hx
          · exact htail
        obtain ⟨before, y, after, rfl, hy, hbefore⟩ :=
          ih htail fun c hc => hleast c (List.mem_append_right _ hc)
        refine ⟨x :: before, y, after, rfl, hy, ?_⟩
        intro c hc
        rw [completions_cons] at hc
        rcases List.mem_append.1 hc with hhead | htail
        · refine Int.lt_iff_le_and_ne.2 ⟨hleast c (List.mem_append_left _ hhead), ?_⟩
          rintro rfl
          exact hx (Option.mem_toList.1 hhead)
        · exact hbefore c htail

/-- The last exchange is a run that was answered but reported no completion earlier than the one at
this time, which is the earliest that was reported before. -/
def Exhausted (xs : List Exchange) (time : Time) : Prop :=
  ∃ before model bmcLength timeout answer,
    xs = before ++ [.run model bmcLength timeout (.ok answer)] ∧
      (completions before).min? = some time ∧ ∀ c ∈ answer.completion?, time ≤ c

theorem exhausted_append_run {xs : List Exchange} {model : String} {bmcLength : Nat}
    {timeout : Duration} {answer : Except SolverError BmcAnswer} {time : Time} :
    Exhausted (xs ++ [.run model bmcLength timeout answer]) time ↔
      ∃ a, answer = .ok a ∧ (completions xs).min? = some time ∧ ∀ c ∈ a.completion?, time ≤ c := by
  constructor
  · rintro ⟨before, _, _, _, a, heq, hleast, hlate⟩
    obtain ⟨rfl, hrun⟩ := List.append_inj' heq rfl
    obtain ⟨-, -, -, rfl⟩ := Exchange.run.inj (List.singleton_inj.1 hrun)
    exact ⟨a, rfl, hleast, hlate⟩
  · rintro ⟨a, rfl, hleast, hlate⟩
    exact ⟨xs, model, bmcLength, timeout, a, rfl, hleast, hlate⟩

/-- The claim that there is no completion, or none before the one that is known. -/
def Target.claimBefore (target : Target) : Option Time → String
  | none => target.neverCompletes
  | some known => target.notCompletedBefore known

namespace BmcSearch

/-! ## Runs -/

/-- The claim of the next run. -/
def claim (s : BmcSearch) (target : Target) : String :=
  target.claimBefore s.finalTime

/-- The events of the next run: its model is written, and the model checker answers. -/
def runEvents (s : BmcSearch) (options : BmcOptions) (model : String) (target : Target)
    (answer : Except SolverError BmcAnswer) : List Event :=
  let text := claimModel model (s.claim target)
  [.wrote .bmc text, .asked (.run text options.bmcLength s.timeout answer)]

/-- The next run, given its answer, is taken into the search: it refutes its claim by a completion
that is earlier than the one that is known. -/
structure Accepts (s : BmcSearch) (target : Target) (answer : BmcAnswer) (time : Time)
    (trace : List String) (elapsed : Duration) : Prop where
  refuted : judge (s.claim target) s.timeout answer = .refuted time trace elapsed
  earlier : ∀ known ∈ s.finalTime, time < known

/-- What a refutation is made of. -/
theorem judge_eq_refuted_iff {claim : String} {timeout : Duration} {answer : BmcAnswer}
    {time : Time} {trace : List String} {elapsed : Duration} :
    judge claim timeout answer = .refuted time trace elapsed ↔
      answer.completion? = some time ∧
        trace = Output.traceLines (Text.decodeLossy answer.output) ∧
          answer.elapsed = some elapsed := by
  unfold judge BmcAnswer.completion?
  cases answer.elapsed with
  | none => simp
  | some elapsed' =>
      dsimp only
      generalize Text.decodeLossy answer.output = output
      cases Output.isRefuted output with
      | false => simp
      | true =>
          cases Output.finalTime output with
          | none => simp
          | some time' =>
              simp only [Bool.not_true, Bool.false_eq_true, if_false, RunResult.refuted.injEq]
              simp [eq_comm]

/-- A run that reports an earlier completion is taken into the search. -/
theorem exists_accepts {s : BmcSearch} {answer : BmcAnswer} {time : Time}
    (hcompletion : answer.completion? = some time) (hearlier : ∀ known ∈ s.finalTime, time < known)
    (target : Target) : ∃ trace elapsed, s.Accepts target answer time trace elapsed := by
  obtain ⟨elapsed, helapsed⟩ := answer.elapsed_of_completion? hcompletion
  exact ⟨_, elapsed, judge_eq_refuted_iff.2 ⟨hcompletion, rfl, helapsed⟩, hearlier⟩

/-- A run of which nothing is accepted reports no completion before the one that is known. -/
theorem not_earlier_of_refused {s : BmcSearch} {target : Target} {answer : BmcAnswer} {time : Time}
    (hrefused : ∀ time trace elapsed, ¬ s.Accepts target answer time trace elapsed)
    (hcompletion : answer.completion? = some time) : ¬ ∀ known ∈ s.finalTime, time < known := by
  intro hearlier
  obtain ⟨trace, elapsed, haccepts⟩ := exists_accepts hcompletion hearlier target
  exact hrefused time trace elapsed haccepts

/-! ## Points of a search -/

/-- Accepted completions, all of them after the deadline, lead from one point of a search to
another. -/
inductive Searching (options : BmcOptions) (model : String) (target : Target) :
    BmcSearch → List Event → BmcSearch → Prop
  | nil (s : BmcSearch) : Searching options model target s [] s
  | cons {s next s' : BmcSearch} {answer : BmcAnswer} {time : Time} {trace : List String}
      {elapsed : Duration} {es : List Event}
      (haccepts : s.Accepts target answer time trace elapsed)
      (hmissed : target.deadline < time)
      (hextended :
        (s.accept time trace elapsed).extendTimeout options.timeoutFactor = .ok next)
      (hrest : Searching options model target next es s') :
      Searching options model target s (s.runEvents options model target (.ok answer) ++ es) s'

/-- How the last run of a search ends it. -/
inductive SearchEnds (dir : String) (options : BmcOptions) (model : String) (target : Target)
    (s : BmcSearch) : List Event → Except (Stop CheckError) BmcSearch → Prop
  /-- Its model could not be written. -/
  | unwritten (e : IoError) :
      SearchEnds dir options model target s []
        (.error (.error (.artifact (Artifact.bmc.pathIn dir) e)))
  /-- The model checker gave no answer. -/
  | unanswered (e : SolverError) :
      SearchEnds dir options model target s
        (s.runEvents options model target (.error e)) (.error (.error (.solver e)))
  /-- The claim is not refuted by an earlier completion. -/
  | exhausted {answer : BmcAnswer}
      (hnone : ∀ time trace elapsed, ¬ s.Accepts target answer time trace elapsed) :
      SearchEnds dir options model target s
        (s.runEvents options model target (.ok answer)) (.ok s)
  /-- The task is completed in time. -/
  | met {answer : BmcAnswer} {time : Time} {trace : List String} {elapsed : Duration}
      (haccepts : s.Accepts target answer time trace elapsed)
      (hmet : time ≤ target.deadline) :
      SearchEnds dir options model target s
        (s.runEvents options model target (.ok answer)) (.ok (s.accept time trace elapsed))
  /-- There is no timeout for a further run. -/
  | overlong {answer : BmcAnswer} {time : Time} {trace : List String} {elapsed : Duration}
      {f : Fault} (haccepts : s.Accepts target answer time trace elapsed)
      (hmissed : target.deadline < time)
      (hfault :
        (s.accept time trace elapsed).extendTimeout options.timeoutFactor = .error f) :
      SearchEnds dir options model target s
        (s.runEvents options model target (.ok answer)) (.error (.fault f))

/-- The events of a search from a point on: completions after the deadline are accepted, and then
the search ends. -/
def SearchEvents (dir : String) (options : BmcOptions) (model : String) (target : Target)
    (s : BmcSearch) (es : List Event) (r : Except (Stop CheckError) BmcSearch) : Prop :=
  ∃ last es₁ es₂, es = es₁ ++ es₂ ∧ Searching options model target s es₁ last ∧
    SearchEnds dir options model target last es₂ r

@[simp] theorem claim_start (baseTimeout : Duration) (target : Target) :
    (start baseTimeout).claim target = target.neverCompletes := rfl

theorem claim_of_finalTime {s : BmcSearch} {known : Time} (h : s.finalTime = some known)
    (target : Target) : s.claim target = target.notCompletedBefore known :=
  congrArg target.claimBefore h

/-- The timeout of the next run is all that extending the timeout changes. -/
theorem eq_of_extendTimeout {s next : BmcSearch} {factor : Float}
    (h : s.extendTimeout factor = .ok next) : next = { s with timeout := next.timeout } := by
  unfold extendTimeout at h
  split at h
  · rw [← Except.ok.inj h]
  · obtain ⟨timeout, -, hnext⟩ := except_bind_eq_ok.1 h
    rw [← except_pure_eq_ok.1 hnext]

theorem finalTime_of_extendTimeout {s next : BmcSearch} {factor : Float}
    (h : s.extendTimeout factor = .ok next) : next.finalTime = s.finalTime := by
  rw [eq_of_extendTimeout h]

theorem solveTimes_of_extendTimeout {s next : BmcSearch} {factor : Float}
    (h : s.extendTimeout factor = .ok next) : next.solveTimes = s.solveTimes := by
  rw [eq_of_extendTimeout h]

/-! ## The courses -/

section Course

variable {σ : Type} {backend : Backend σ} {combiner : Combiner σ} {dir : String}
  {options : BmcOptions} {model : String} {target : Target} {s : BmcSearch} {w w' : World σ}

/-- The model checker finds the model of a run that was just written. -/
theorem holds_run {text : String} {timeout : Duration}
    (hreads : w.tree.readText (Artifact.bmc.pathIn dir) = .ok text)
    (answer : Except SolverError BmcAnswer) (state : Tree × σ)
    (hends : Ends (backend.runBmc (Artifact.bmc.pathIn dir) options.bmcLength timeout)
      (w.tree, w.solver) answer state) :
    (Exchange.run text options.bmcLength timeout answer).Holds backend dir
      (w.tree, w.solver) state :=
  ⟨hreads, hends⟩

/-- A run that gives a result wrote its model and got an answer. -/
theorem run_course_ok (combiner : Combiner σ) {result : RunResult}
    (h : Ends (run backend dir options model (s.claim target) s.timeout) w (.ok result) w') :
    ∃ answer, result = judge (s.claim target) s.timeout answer ∧
      Course backend combiner dir w (s.runEvents options model target (.ok answer)) w' := by
  unfold run at h
  obtain ⟨path, m, hwrite, hnext⟩ := ends_bind_ok.1 h
  obtain ⟨tree, hstore, rfl, rfl⟩ := ends_write_ok hwrite
  obtain ⟨answer, m, hasked, hlast⟩ := ends_bind_ok.1 hnext
  have hcourse : Course backend combiner dir w
      (s.runEvents options model target (.ok answer)) m :=
    (Move.wrote hstore).course.append
      (exchange_course_ok hasked (holds_run (Artifact.readText_of_store hstore)))
  refine ⟨answer, ?_⟩
  dsimp only at hlast
  split at hlast
  · rw [ends_modify_bind] at hlast
    obtain ⟨hresult, rfl⟩ := ends_pure_ok.1 hlast
    exact ⟨hresult, hcourse.thenLogged _⟩
  · obtain ⟨hresult, rfl⟩ := ends_pure_ok.1 hlast
    exact ⟨hresult, hcourse⟩

/-- A run that breaks off could not write its model, or got no answer. -/
theorem run_course_error (combiner : Combiner σ) {stop : Stop CheckError}
    (h : Ends (run backend dir options model (s.claim target) s.timeout) w (.error stop) w') :
    ∃ es, Course backend combiner dir w es w' ∧
      SearchEnds dir options model target s es (.error stop) := by
  unfold run at h
  rcases ends_bind_error.1 h with ⟨path, m, hwrite, hnext⟩ | hwrite
  · obtain ⟨tree, hstore, rfl, rfl⟩ := ends_write_ok hwrite
    rcases ends_bind_error.1 hnext with ⟨answer, m, hasked, hlast⟩ | hasked
    · dsimp only at hlast
      split at hlast
      · rw [ends_modify_bind] at hlast
        exact absurd (ends_pure.1 hlast).1 (by simp)
      · exact absurd (ends_pure.1 hlast).1 (by simp)
    · obtain ⟨e, rfl, hcourse⟩ := exchange_course_error combiner hasked
        (holds_run (Artifact.readText_of_store hstore))
      exact ⟨_, (Move.wrote hstore).course.append hcourse, .unanswered e⟩
  · obtain ⟨⟨e, rfl⟩, rfl⟩ := ends_write_error hwrite
    exact ⟨[], .nil _, .unwritten e⟩

theorem ends_acceptReported {time : Time} {trace : List String} {elapsed : Duration}
    {r : Except (Stop CheckError) BmcSearch} (h : Ends (s.acceptReported time trace elapsed) w r w') :
    r = .ok (s.accept time trace elapsed) ∧ ∃ reports, w' = w.logged reports := by
  unfold acceptReported at h
  rw [ends_info_bind] at h
  obtain ⟨hr, hw⟩ := ends_pure.1 h
  exact ⟨hr, _, hw⟩

theorem ends_acceptReported_bind {α : Type} {time : Time} {trace : List String}
    {elapsed : Duration} {f : BmcSearch → Check σ α} {r : Except (Stop CheckError) α}
    (h : Ends (s.acceptReported time trace elapsed >>= f) w r w') :
    ∃ reports, Ends (f (s.accept time trace elapsed)) (w.logged reports) r w' := by
  rcases ends_bind.1 h with ⟨s', m, haccept, hrest⟩ | ⟨e, -, haccept⟩
  · obtain ⟨hs', reports, rfl⟩ := ends_acceptReported haccept
    obtain rfl := Except.ok.inj hs'
    exact ⟨reports, hrest⟩
  · exact absurd (ends_acceptReported haccept).1 (by simp)

/-- The search from a point on has a course. -/
def SearchCourse (backend : Backend σ) (combiner : Combiner σ) (dir : String)
    (options : BmcOptions) (model : String) (target : Target) (s : BmcSearch) (w : World σ)
    (r : Except (Stop CheckError) BmcSearch) (w' : World σ) : Prop :=
  ∃ es, SearchEvents dir options model target s es r ∧ Course backend combiner dir w es w'

theorem SearchCourse.ends {r : Except (Stop CheckError) BmcSearch} {es : List Event}
    (h : SearchEnds dir options model target s es r)
    (hcourse : Course backend combiner dir w es w') :
    SearchCourse backend combiner dir options model target s w r w' :=
  ⟨es, ⟨s, [], es, rfl, .nil s, h⟩, hcourse⟩

/-- The search goes on after an accepted completion that misses the deadline. -/
theorem SearchCourse.extended {r : Except (Stop CheckError) BmcSearch} {answer : BmcAnswer}
    {time : Time} {trace : List String} {elapsed : Duration} {m : World σ}
    {continue' : BmcSearch → Check σ BmcSearch}
    (haccepts : s.Accepts target answer time trace elapsed) (hmissed : ¬ time ≤ target.deadline)
    (hcourse : Course backend combiner dir w
      (s.runEvents options model target (.ok answer)) m)
    (h : Ends (Action.ofFault
      ((s.accept time trace elapsed).extendTimeout options.timeoutFactor) >>= continue') m r w')
    (hcontinue : ∀ next : BmcSearch, next.finalTime = some time →
      Ends (continue' next) m r w' →
        SearchCourse backend combiner dir options model target next m r w') :
    SearchCourse backend combiner dir options model target s w r w' := by
  have hlate : target.deadline < time := Int.not_le.1 hmissed
  rcases ends_ofFault_bind.1 h with ⟨next, hextended, hnext⟩ | ⟨f, hfault, rfl, rfl⟩
  · obtain ⟨_, ⟨last, es₁, es₂, rfl, hsearching, hends⟩, hrest⟩ :=
      hcontinue next (finalTime_of_extendTimeout hextended) hnext
    have hfirst := Searching.cons haccepts hlate hextended hsearching
    exact ⟨_, ⟨last, _, es₂, (List.append_assoc _ _ _).symm, hfirst, hends⟩,
      hcourse.append hrest⟩
  · exact .ends (.overlong haccepts hlate hfault) hcourse

/-- A claim that is not refuted ends the search. -/
theorem SearchCourse.inconclusive {answer : BmcAnswer} {reports : Log}
    (hresult : .inconclusive reports = judge (s.claim target) s.timeout answer)
    (hcourse : Course backend combiner dir w (s.runEvents options model target (.ok answer)) w') :
    SearchCourse backend combiner dir options model target s w (.ok s) w' := by
  refine .ends (.exhausted ?_) hcourse
  intro time trace elapsed haccepts
  exact absurd (hresult.trans haccepts.refuted) (by simp)

theorem searchBefore_course {known : Time} {r : Except (Stop CheckError) BmcSearch}
    (hknown : s.finalTime = some known)
    (h : Ends (searchBefore backend dir options model target known s) w r w') :
    SearchCourse backend combiner dir options model target s w r w' := by
  fun_induction searchBefore backend dir options model target known s generalizing w
  case case1 known s ih =>
    rw [← claim_of_finalTime hknown] at h
    rcases ends_bind.1 h with ⟨result, m, hrun, hnext⟩ | ⟨stop, rfl, hrun⟩
    · obtain ⟨answer, hresult, hcourse⟩ := run_course_ok combiner hrun
      cases result with
      | inconclusive reports =>
          obtain ⟨rfl, rfl⟩ := ends_pure.1 hnext
          exact .inconclusive hresult hcourse
      | refuted time trace elapsed =>
          dsimp only at hnext
          split at hnext
          · next hlate =>
              rw [ends_warn_bind] at hnext
              obtain ⟨rfl, rfl⟩ := ends_pure.1 hnext
              refine .ends (.exhausted ?_) (hcourse.thenLogged _)
              intro time' trace' elapsed' haccepts
              obtain ⟨rfl, -, -⟩ := RunResult.refuted.inj (hresult.trans haccepts.refuted)
              exact Int.not_lt.2 hlate (haccepts.earlier known hknown)
          · next hearlier =>
              have haccepts : s.Accepts target answer time trace elapsed := by
                refine ⟨hresult.symm, fun known' hknown' => ?_⟩
                obtain rfl : known = known' := Option.some.inj (hknown.symm.trans hknown')
                exact Int.not_le.1 hearlier
              split at hnext
              · next hmet =>
                  obtain ⟨rfl, reports, rfl⟩ := ends_acceptReported hnext
                  exact .ends (.met haccepts hmet) (hcourse.thenLogged _)
              · next hmissed =>
                  obtain ⟨reports, hextend⟩ := ends_acceptReported_bind hnext
                  exact .extended haccepts hmissed (hcourse.thenLogged reports) hextend
                    fun next hfinal hrest => ih time hearlier hmissed next hfinal hrest
    · obtain ⟨es, hcourse, hends⟩ := run_course_error combiner hrun
      exact .ends hends hcourse

/-- Every search has a course, from the point before its first run. -/
theorem search_course (combiner : Combiner σ) {r : Except (Stop CheckError) BmcSearch}
    (h : Ends (search backend dir options model target) w r w') :
    SearchCourse backend combiner dir options model target (start options.baseTimeout) w r w' := by
  unfold search at h
  rw [← claim_start options.baseTimeout] at h
  rcases ends_bind.1 h with ⟨result, m, hrun, hnext⟩ | ⟨stop, rfl, hrun⟩
  · obtain ⟨answer, hresult, hcourse⟩ := run_course_ok combiner hrun
    cases result with
    | inconclusive reports =>
        obtain ⟨rfl, rfl⟩ := ends_pure.1 hnext
        exact .inconclusive hresult hcourse
    | refuted time trace elapsed =>
        have haccepts : (start options.baseTimeout).Accepts target answer time trace elapsed :=
          ⟨hresult.symm, by rintro known ⟨⟩⟩
        obtain ⟨reports, hextend⟩ := ends_acceptReported_bind hnext
        have hlogged := hcourse.thenLogged reports
        split at hextend
        · next hmet =>
            obtain ⟨rfl, rfl⟩ := ends_pure.1 hextend
            exact .ends (.met haccepts hmet) hlogged
        · next hmissed =>
            exact .extended haccepts hmissed hlogged hextend
              fun next hfinal hrest => searchBefore_course hfinal hrest
  · obtain ⟨es, hcourse, hends⟩ := run_course_error combiner hrun
    exact .ends hends hcourse

end Course

/-! ## What a search has found -/

section Found

variable {dir : String} {options : BmcOptions} {model : String} {target : Target}
  {s s' : BmcSearch} {es : List Event}

/-- What holds at every point of a search: a completion that is known misses the deadline, and the
timeout of the next run is the multiple of the longest refutation. -/
def IsPoint (options : BmcOptions) (target : Target) (s : BmcSearch) : Prop :=
  s.finalTime = none ∨
    ∃ time longest, s.finalTime = some time ∧ target.deadline < time ∧
      Duration.longest? s.solveTimes = some longest ∧
        longest.scale options.timeoutFactor = .ok s.timeout

theorem isPoint_start : IsPoint options target (start options.baseTimeout) :=
  .inl rfl

theorem isPoint_of_extendTimeout {time : Time} {trace : List String} {elapsed : Duration}
    (hmissed : target.deadline < time)
    (h : (s.accept time trace elapsed).extendTimeout options.timeoutFactor = .ok s') :
    IsPoint options target s' := by
  unfold extendTimeout at h
  split at h
  · next hnone =>
      have hne : s.solveTimes ++ [elapsed] ≠ [] := by simp
      cases hsolve : s.solveTimes ++ [elapsed] with
      | nil => exact absurd hsolve hne
      | cons d ds => simp [accept, hsolve, Duration.longest?] at hnone
  · next longest hlongest =>
      obtain ⟨timeout, hscale, hs'⟩ := except_bind_eq_ok.1 h
      obtain rfl := except_pure_eq_ok.1 hs'
      exact .inr ⟨time, longest, rfl, hmissed, hlongest, hscale⟩

theorem Searching.isPoint (h : Searching options model target s es s')
    (hs : IsPoint options target s) : IsPoint options target s' := by
  induction h with
  | nil => exact hs
  | cons _ hmissed hextended _ ih => exact ih (isPoint_of_extendTimeout hmissed hextended)

/-- A run reports at most one completion. -/
theorem completions_runEvents (s : BmcSearch) (options : BmcOptions) (model : String)
    (target : Target) (answer : BmcAnswer) :
    completions (Event.exchanges (s.runEvents options model target (.ok answer))) =
      answer.completion?.toList := by
  simp [runEvents, completions_cons, Exchange.completion?]

theorem min?_of_earlier {known : Option Time} {time : Time} (h : ∀ k ∈ known, time < k)
    (cs : List Time) : (known.toList ++ time :: cs).min? = (time :: cs).min? := by
  cases known with
  | none => rfl
  | some k =>
      have hmin : min k time = time := Int.min_eq_right (Int.le_of_lt (h k rfl))
      simp only [Option.toList_some, List.singleton_append, List.min?_cons', List.foldl_cons,
        hmin]

theorem min?_of_not_earlier {known : Option Time} {time : Time}
    (h : ¬ ∀ k ∈ known, time < k) : (known.toList ++ [time]).min? = known := by
  cases known with
  | none => simp at h
  | some k =>
      have hle : k ≤ time := by simpa using h
      simp [Int.min_eq_left hle]

theorem min?_toList (known : Option Time) : known.toList.min? = known := by
  cases known <;> rfl

/-- The known completion at a point is the earliest one that was reported. -/
theorem Searching.finalTime_eq (h : Searching options model target s es s') (cs : List Time) :
    (s'.finalTime.toList ++ cs).min? =
      (s.finalTime.toList ++ completions (Event.exchanges es) ++ cs).min? := by
  induction h with
  | nil => simp
  | @cons s next s' answer time trace elapsed es haccepts hmissed hextended _ ih =>
      obtain ⟨hcompletion, -, -⟩ := judge_eq_refuted_iff.1 haccepts.refuted
      have hnext : next.finalTime = some time := finalTime_of_extendTimeout hextended
      rw [ih, hnext, Event.exchanges_append, completions_append, completions_runEvents,
        hcompletion, List.append_assoc, List.append_assoc]
      exact (min?_of_earlier haccepts.earlier _).symm

theorem Searching.finalTime_of_start
    (h : Searching options model target (start options.baseTimeout) es s) :
    s.finalTime = (completions (Event.exchanges es)).min? := by
  have hleast := h.finalTime_eq []
  rw [List.append_nil, min?_toList] at hleast
  simpa [start] using hleast

/-- A search has found the earliest completion that was reported. -/
theorem SearchEvents.finalTime_eq
    (h : SearchEvents dir options model target s es (.ok s')) :
    s'.finalTime = (s.finalTime.toList ++ completions (Event.exchanges es)).min? := by
  obtain ⟨last, es₁, es₂, rfl, hsearching, hends⟩ := h
  rw [Event.exchanges_append, completions_append, ← List.append_assoc,
    ← hsearching.finalTime_eq]
  cases hends with
  | @exhausted answer hnone =>
      rw [completions_runEvents]
      cases hcompletion : answer.completion? with
      | none =>
          rw [Option.toList_none, List.append_nil]
          exact (min?_toList _).symm
      | some time =>
          exact (min?_of_not_earlier (not_earlier_of_refused hnone hcompletion)).symm
  | @met answer time trace elapsed haccepts hmet =>
      obtain ⟨hcompletion, -, -⟩ := judge_eq_refuted_iff.1 haccepts.refuted
      rw [completions_runEvents, hcompletion]
      exact (min?_of_earlier haccepts.earlier []).symm

/-- Every event between two points of a search belongs to the run at a point between them. -/
theorem Searching.exists_run (h : Searching options model target s es s') {e : Event}
    (he : e ∈ es) :
    ∃ before point answer after, Searching options model target s before point ∧
      es = before ++ point.runEvents options model target answer ++ after ∧
        e ∈ point.runEvents options model target answer := by
  induction h with
  | nil => simp at he
  | @cons s _ _ answer _ _ _ es haccepts hmissed hextended _ ih =>
      rcases List.mem_append.1 he with hhead | htail
      · exact ⟨[], s, .ok answer, es, .nil s, rfl, hhead⟩
      · obtain ⟨before, point, answer', after, hsearching, rfl, hrun⟩ := ih htail
        refine ⟨_, point, answer', after, .cons haccepts hmissed hextended hsearching, ?_, hrun⟩
        simp only [List.append_assoc]

theorem SearchEnds.exists_run {r : Except (Stop CheckError) BmcSearch}
    (h : SearchEnds dir options model target s es r) {e : Event} (he : e ∈ es) :
    ∃ answer, es = s.runEvents options model target answer := by
  cases h with
  | unwritten e => simp at he
  | unanswered e => exact ⟨_, rfl⟩
  | exhausted hnone => exact ⟨_, rfl⟩
  | met haccepts hmet => exact ⟨_, rfl⟩
  | overlong haccepts hmissed hfault => exact ⟨_, rfl⟩

/-- Every event of a search belongs to the run at one of its points. -/
theorem SearchEvents.exists_run {r : Except (Stop CheckError) BmcSearch}
    (h : SearchEvents dir options model target s es r) {e : Event} (he : e ∈ es) :
    ∃ before point answer after, Searching options model target s before point ∧
      es = before ++ point.runEvents options model target answer ++ after ∧
        e ∈ point.runEvents options model target answer := by
  obtain ⟨last, es₁, es₂, rfl, hsearching, hends⟩ := h
  rcases List.mem_append.1 he with hfirst | hlast
  · obtain ⟨before, point, answer, after, hbefore, rfl, hrun⟩ := hsearching.exists_run hfirst
    exact ⟨before, point, answer, after ++ es₂, hbefore, List.append_assoc _ _ _, hrun⟩
  · obtain ⟨answer, rfl⟩ := hends.exists_run hlast
    exact ⟨es₁, last, answer, [], hsearching, (List.append_nil _).symm, hlast⟩

theorem meets_accept {time : Time} {trace : List String} {elapsed : Duration}
    (hmet : time ≤ target.deadline) : (s.accept time trace elapsed).meets target.deadline := by
  simp [meets, accept, hmet]

theorem IsPoint.not_meets (h : IsPoint options target s) : s.meets target.deadline = false := by
  rcases h with hnone | ⟨time, longest, hfinal, hmissed, -⟩
  · simp [meets, hnone]
  · simp [meets, hfinal, Int.not_le.2 hmissed]

/-- A search that completes the task in time ends with the run that does so. Every other search ends
at one of its points. -/
theorem SearchEvents.meets_or_isPoint
    (h : SearchEvents dir options model target s es (.ok s')) (hs : IsPoint options target s) :
    (s'.meets target.deadline ∧
        ∃ es' last answer time trace elapsed,
          es = es' ++ runEvents last options model target (.ok answer) ∧
            Accepts last target answer time trace elapsed ∧ time ≤ target.deadline ∧
              s' = accept last time trace elapsed) ∨
      s'.meets target.deadline = false ∧ IsPoint options target s' := by
  obtain ⟨last, es₁, es₂, rfl, hsearching, hends⟩ := h
  cases hends with
  | exhausted hnone =>
      have hpoint := hsearching.isPoint hs
      exact .inr ⟨hpoint.not_meets, hpoint⟩
  | met haccepts hmet =>
      exact .inl ⟨meets_accept hmet, es₁, last, _, _, _, _, rfl, haccepts, hmet, rfl⟩

theorem SearchEvents.isPoint_of_missed
    (h : SearchEvents dir options model target (start options.baseTimeout) es (.ok s))
    (hmissed : s.meets target.deadline = false) : IsPoint options target s := by
  rcases h.meets_or_isPoint isPoint_start with ⟨hmeets, -⟩ | ⟨-, hpoint⟩
  · rw [hmissed] at hmeets
    simp at hmeets
  · exact hpoint

/-- A run that was accepted does not exhaust a search. -/
theorem Accepts.not_exhausted {answer : BmcAnswer} {time known : Time} {trace : List String}
    {elapsed : Duration} {xs : List Exchange} {text : String}
    (h : s.Accepts target answer time trace elapsed)
    (hpoint : s.finalTime = (completions xs).min?) :
    ¬ Exhausted (xs ++ [.run text options.bmcLength s.timeout (.ok answer)]) known := by
  intro hexhausted
  obtain ⟨_, ⟨⟩, hleast, hlate⟩ := exhausted_append_run.1 hexhausted
  obtain ⟨hcompletion, -, -⟩ := judge_eq_refuted_iff.1 h.refuted
  exact Int.not_lt.2 (hlate time hcompletion) (h.earlier known (hpoint.trans hleast))

/-- A search is exhausted if it ends with a completion that misses the deadline. -/
theorem SearchEvents.exhausted_iff {r : Except (Stop CheckError) BmcSearch} {time : Time}
    (h : SearchEvents dir options model target (start options.baseTimeout) es r)
    (hwritten : ∀ path e, r ≠ .error (.error (.artifact path e))) :
    Exhausted (Event.exchanges es) time ↔
      ∃ found, r = .ok found ∧ found.meets target.deadline = false ∧
        found.finalTime = some time := by
  obtain ⟨last, es₁, es₂, rfl, hsearching, hends⟩ := h
  have hpoint := hsearching.finalTime_of_start
  rw [Event.exchanges_append]
  cases hends with
  | unwritten e => exact absurd rfl (hwritten _ e)
  | unanswered e =>
      refine iff_of_false ?_ (by simp)
      intro hexhausted
      obtain ⟨a, ha, -⟩ := exhausted_append_run.1 hexhausted
      simp at ha
  | @exhausted answer hnone =>
      refine exhausted_append_run.trans ?_
      constructor
      · rintro ⟨_, -, hleast, -⟩
        exact ⟨last, rfl, (hsearching.isPoint isPoint_start).not_meets, hpoint.trans hleast⟩
      · rintro ⟨_, ⟨⟩, -, hfinal⟩
        refine ⟨answer, rfl, hpoint.symm.trans hfinal, ?_⟩
        intro c hc
        refine Int.not_lt.1 fun hearlier => not_earlier_of_refused hnone hc ?_
        intro known hknown
        obtain rfl := Option.some.inj (hfinal.symm.trans hknown)
        exact hearlier
  | met haccepts hmet =>
      refine iff_of_false (haccepts.not_exhausted hpoint) ?_
      rintro ⟨_, ⟨⟩, hmissed, -⟩
      rw [meets_accept hmet] at hmissed
      simp at hmissed
  | overlong haccepts hmissed hfault =>
      exact iff_of_false (haccepts.not_exhausted hpoint) (by simp)

/-- A search that completes the task in time ends with the accepted run that does so. -/
theorem SearchEvents.exists_last
    (h : SearchEvents dir options model target (start options.baseTimeout) es (.ok s))
    (hmeets : s.meets target.deadline) :
    ∃ before text bmcLength timeout answer time,
      Event.exchanges es = before ++ [.run text bmcLength timeout (.ok answer)] ∧
        answer.completion? = some time ∧ (∀ c ∈ completions before, time < c) ∧
          time ≤ target.deadline ∧ s.finalTime = some time ∧
            s.counterexample = some (Output.traceLines (Text.decodeLossy answer.output)) := by
  obtain ⟨last, es₁, es₂, rfl, hsearching, hends⟩ := h
  cases hends with
  | exhausted hnone =>
      rw [(hsearching.isPoint isPoint_start).not_meets] at hmeets
      simp at hmeets
  | @met answer time trace elapsed haccepts hmet =>
      obtain ⟨hcompletion, rfl, -⟩ := judge_eq_refuted_iff.1 haccepts.refuted
      refine ⟨Event.exchanges es₁, _, _, _, answer, time, Event.exchanges_append _ _, hcompletion,
        ?_, hmet, rfl, rfl⟩
      intro c hc
      cases hleast : (completions (Event.exchanges es₁)).min? with
      | none =>
          rw [List.min?_eq_none_iff.1 hleast] at hc
          simp at hc
      | some least =>
          have hearlier := haccepts.earlier least (hsearching.finalTime_of_start.trans hleast)
          exact Int.lt_of_lt_of_le hearlier ((List.min?_eq_some_iff.1 hleast).2 c hc)

end Found

end BmcSearch

end Punctual
