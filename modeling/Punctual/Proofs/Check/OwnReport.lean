import Punctual.Proofs.Check.Heuristic
import Punctual.Proofs.Solver.Report

/-!
# Runs with several reports

A model may carry specifications of its own besides the claim of a run, and then a run prints a
report for each of them. A search reads the whole output: a run counts as a refutation as soon as
any report is one, and its completion time is the greatest time of all reports. Whether this is what
the report on the claim says depends on the other reports. `Undisturbed` is the exact condition
under which it is (`RunReports.completion?_eq_own_iff`).
-/

namespace Punctual

open Check Output

/-- The greatest element of a part is the greatest of all if it bounds all, and only then. -/
theorem max?_eq_iff_of_subset {ts ss : List Time} (hsubset : ss ⊆ ts) :
    ts.max? = ss.max? ↔ ∀ t ∈ ts, ∃ t' ∈ ss, t ≤ t' := by
  constructor
  · intro heq t ht
    cases hmax : ts.max? with
    | none =>
        rw [List.max?_eq_none_iff.1 hmax] at ht
        simp at ht
    | some greatest =>
        have hmem : greatest ∈ ss := List.max?_mem (heq.symm.trans hmax)
        exact ⟨greatest, hmem, (List.max?_eq_some_iff.1 hmax).2 t ht⟩
  · intro hbound
    cases hmax : ss.max? with
    | none =>
        obtain rfl := List.max?_eq_none_iff.1 hmax
        refine List.max?_eq_none_iff.2 (List.eq_nil_iff_forall_not_mem.2 fun t ht => ?_)
        obtain ⟨t', ht', -⟩ := hbound t ht
        simp at ht'
    | some greatest =>
        obtain ⟨hmem, hgreatest⟩ := List.max?_eq_some_iff.1 hmax
        refine List.max?_eq_some_iff.2 ⟨hsubset hmem, fun t ht => ?_⟩
        obtain ⟨t', ht', hle⟩ := hbound t ht
        exact Int.le_trans hle (hgreatest t' ht')

/-- The reports of a run: the one on its claim, and those on what else the model specifies. -/
structure RunReports where
  before : List SpecReport
  own : SpecReport
  after : List SpecReport

namespace RunReports

/-- All reports, as they are printed. -/
def all (p : RunReports) : List SpecReport :=
  p.before ++ p.own :: p.after

/-- The reports that are not on the claim. -/
def others (p : RunReports) : List SpecReport :=
  p.before ++ p.after

/-- The times of all reports. -/
def times (p : RunReports) : List Time :=
  p.all.flatMap SpecReport.times

/-- The reports on other specifications make no difference: if the claim is refuted, none of them
states a time after those of its report, and if it is not, none of them is a refutation, or no
report states any time. -/
def Undisturbed (p : RunReports) : Prop :=
  if p.own.isRefuted then ∀ r ∈ p.others, ∀ t ∈ r.times, ∃ t' ∈ p.own.times, t ≤ t'
  else (∀ r ∈ p.others, r.isRefuted = false) ∨ ∀ r ∈ p.all, r.times = []

variable {p : RunReports} {r : SpecReport} {answer : BmcAnswer}

theorem mem_all_iff : r ∈ p.all ↔ r = p.own ∨ r ∈ p.others := by
  unfold all others
  rw [List.mem_append, List.mem_append, List.mem_cons]
  tauto

/-- Without other reports there is nothing to disturb the one on the claim. -/
theorem undisturbed_of_others_eq_nil (h : p.others = []) : p.Undisturbed := by
  unfold Undisturbed
  split
  · simp [h]
  · exact .inl (by simp [h])

theorem times_eq_nil_iff : p.times = [] ↔ ∀ r ∈ p.all, r.times = [] :=
  List.flatMap_eq_nil_iff

/-- The claim is refuted at the greatest time of all reports if no other one states a later time. -/
theorem max?_times_iff :
    p.times.max? = p.own.times.max? ↔
      ∀ r ∈ p.others, ∀ t ∈ r.times, ∃ t' ∈ p.own.times, t ≤ t' := by
  have hsubset : p.own.times ⊆ p.times := by
    intro t ht
    exact List.mem_flatMap.2 ⟨p.own, mem_all_iff.2 (.inl rfl), ht⟩
  rw [max?_eq_iff_of_subset hsubset]
  constructor
  · intro hbound r hr t ht
    exact hbound t (List.mem_flatMap.2 ⟨r, mem_all_iff.2 (.inr hr), ht⟩)
  · intro hbound t ht
    obtain ⟨r, hr, htime⟩ := List.mem_flatMap.1 ht
    rcases mem_all_iff.1 hr with rfl | hother
    · exact ⟨t, htime, Int.le_refl t⟩
    · exact hbound r hother t htime

/-- A run that was answered in time prints its reports. -/
structure PrintedBy (p : RunReports) (answer : BmcAnswer) : Prop where
  inTime : answer.elapsed.isSome
  printed : Text.decodeLossy answer.output = ofReports p.all

/-- The completion that a search takes from a run comes from all reports together. -/
theorem PrintedBy.completion? (h : p.PrintedBy answer) :
    answer.completion? = if p.all.any SpecReport.isRefuted then p.times.max? else none := by
  unfold BmcAnswer.completion? Output.finalTime times
  rw [h.inTime, h.printed, Bool.true_and, isRefuted_ofReports, completionTimes_ofReports]

/-- The completion that a search takes from a run is the one of the report on its claim if the other
reports do not disturb it, and only then. -/
theorem PrintedBy.completion?_eq_own_iff (h : p.PrintedBy answer) :
    answer.completion? = p.own.completion? ↔ p.Undisturbed := by
  rw [h.completion?]
  unfold Undisturbed SpecReport.completion?
  by_cases hown : p.own.isRefuted
  · have hany : p.all.any SpecReport.isRefuted :=
      List.any_eq_true.2 ⟨p.own, mem_all_iff.2 (.inl rfl), hown⟩
    rw [if_pos hany, if_pos hown, if_pos hown]
    exact max?_times_iff
  · rw [if_neg hown, if_neg hown]
    by_cases hothers : ∀ r ∈ p.others, r.isRefuted = false
    · have hnone : ¬ p.all.any SpecReport.isRefuted := by
        intro hany
        obtain ⟨r, hr, hrefuted⟩ := List.any_eq_true.1 hany
        rcases mem_all_iff.1 hr with rfl | hother
        · exact hown hrefuted
        · simp [hothers r hother] at hrefuted
      rw [if_neg hnone]
      exact iff_of_true rfl (.inl hothers)
    · have hany : p.all.any SpecReport.isRefuted := by
        obtain ⟨r, hr, hrefuted⟩ : ∃ r ∈ p.others, ¬ r.isRefuted = false := by
          simpa using hothers
        exact List.any_eq_true.2 ⟨r, mem_all_iff.2 (.inr hr), by simpa using hrefuted⟩
      rw [if_pos hany, List.max?_eq_none_iff, times_eq_nil_iff, or_iff_right hothers]

/-- What a completion rests on: some report is a refutation, and the time is the greatest one that
any report states. The report on the claim states it if the others do not disturb it. -/
structure Yields (p : RunReports) (time : Time) : Prop where
  refuted : ∃ r ∈ p.all, r.isRefuted
  stated : ∃ r ∈ p.all, time ∈ r.times
  last : ∀ r ∈ p.all, ∀ t ∈ r.times, t ≤ time
  own_iff : p.own.completion? = some time ↔ p.Undisturbed

theorem PrintedBy.yields {time : Time} (h : p.PrintedBy answer)
    (hcompletion : answer.completion? = some time) : p.Yields time := by
  have hiff := h.completion?_eq_own_iff
  rw [hcompletion, eq_comm] at hiff
  rw [h.completion?] at hcompletion
  split at hcompletion
  · next hany =>
      obtain ⟨hmem, hgreatest⟩ := List.max?_eq_some_iff.1 hcompletion
      refine ⟨List.any_eq_true.1 hany, List.mem_flatMap.1 hmem, ?_, hiff⟩
      intro r hr t ht
      exact hgreatest t (List.mem_flatMap.2 ⟨r, hr, ht⟩)
  · simp at hcompletion

end RunReports

/-! ## Searches -/

/-- What the runs of a search print, if they are answered in time. -/
inductive Prints : Exchange → Option RunReports → Prop
  | inTime {text : String} {n : Nat} {timeout : Duration} {answer : BmcAnswer} {p : RunReports}
      (hprinted : p.PrintedBy answer) : Prints (.run text n timeout (.ok answer)) (some p)
  | late {text : String} {n : Nat} {timeout : Duration} {answer : BmcAnswer}
      (hlate : answer.elapsed = none) : Prints (.run text n timeout (.ok answer)) none

/-- The completions that the reports on the claims state. -/
def ownCompletions (ps : List (Option RunReports)) : List Time :=
  ps.filterMap fun p? => p?.bind fun p => p.own.completion?

/-- What a run reports is what the report on its claim states, if the others do not disturb it. -/
theorem Prints.completion?_eq {x : Exchange} {p? : Option RunReports} (h : Prints x p?)
    (hundisturbed : ∀ p ∈ p?, p.Undisturbed) :
    x.completion? = p?.bind fun p => p.own.completion? := by
  cases h with
  | inTime hprinted => exact hprinted.completion?_eq_own_iff.2 (hundisturbed _ rfl)
  | late hlate => simp [Exchange.completion?, BmcAnswer.completion?, hlate]

theorem completions_eq_of_undisturbed {xs : List Exchange} {ps : List (Option RunReports)}
    (h : List.Forall₂ Prints xs ps) (hundisturbed : ∀ p? ∈ ps, ∀ p ∈ p?, p.Undisturbed) :
    completions xs = ownCompletions ps := by
  induction h with
  | nil => rfl
  | @cons x p? xs ps hprints _ ih =>
      obtain ⟨hfirst, hrest⟩ := List.forall_mem_cons.1 hundisturbed
      unfold completions ownCompletions at ih ⊢
      rw [List.filterMap_cons, List.filterMap_cons, hprints.completion?_eq hfirst, ih hrest]

/-- Every run of a search has a claim behind the model, and the search has found the earliest
completion that its runs report. If nothing disturbs the reports on the claims, it is the earliest
one that these reports state. -/
theorem BmcSearch.finalTime_of_reports {σ : Type} {backend : Backend σ} {dir : String}
    {options : BmcOptions} {model : String} {target : Target} {found : BmcSearch} {w w' : World σ}
    (h : Ends (search backend dir options model target) w (.ok found) w') :
    ∃ xs, w'.exchanges = w.exchanges ++ xs ∧
      (∀ x ∈ xs, ∃ known n timeout answer,
        x = .run (claimModel model (target.claimBefore known)) n timeout answer) ∧
      found.finalTime = (completions xs).min? ∧
      ∀ ps, List.Forall₂ Prints xs ps → (∀ p? ∈ ps, ∀ p ∈ p?, p.Undisturbed) →
        found.finalTime = (ownCompletions ps).min? := by
  obtain ⟨es, hevents, hcourse⟩ := search_course Combiner.builtin h
  have hleast : found.finalTime = (completions (Event.exchanges es)).min? := hevents.finalTime_eq
  refine ⟨Event.exchanges es, hcourse.exchanges_eq, ?_, hleast, ?_⟩
  · intro x hx
    obtain ⟨-, point, answer, -, -, -, hrun⟩ := hevents.exists_run (Event.mem_exchanges.1 hx)
    refine ⟨point.finalTime, options.bmcLength, point.timeout, answer, ?_⟩
    simpa [runEvents, claim] using hrun
  · intro ps hprints hundisturbed
    rw [hleast, completions_eq_of_undisturbed hprints hundisturbed]

namespace Checker

/-! ## Verdicts -/

/-- The runs among the exchanges of a check were made by the model checker. -/
theorem ends_runBmc_of_mem {σ : Type} {c : Checker σ} {s : Schedule} {state : PlantState}
    {result : Except (Stop CheckError) Verdict} {xs : List Exchange} {w w' : World σ}
    {text : String} {n : Nat} {timeout : Duration} {answer : Except SolverError BmcAnswer}
    (h : Ends (c.check s state) w result w') (hxs : w'.exchanges = w.exchanges ++ xs)
    (hmem : .run text n timeout answer ∈ xs) :
    ∃ before after,
      Ends (c.backend.runBmc (Artifact.bmc.pathIn c.dir) n timeout) before answer after := by
  cases check_course h with
  | unmarked e =>
      rw [List.append_right_eq_self.1 hxs.symm] at hmem
      simp at hmem
  | @marked tree es _ _ _ hcourse =>
      obtain rfl : Event.exchanges es = xs :=
        List.append_cancel_left (hcourse.exchanges_eq.symm.trans hxs)
      obtain ⟨before, after, -, hends⟩ := hcourse.holds_of_mem hmem
      exact ⟨before, after, hends⟩

/-- A search takes its completions from all reports together. What it takes from a run is what the
report on the claim states if the other reports do not disturb it, and only then. What it has found
is what the reports on its claims state if none of its runs is disturbed. A task that is declared
feasible by bounded model checking rests on a run whose reports together yield the completion
time. -/
theorem completion_rests_on_reports {σ : Type} :
    (∀ (p : RunReports) (answer : BmcAnswer), p.PrintedBy answer →
      (answer.completion? = p.own.completion? ↔ p.Undisturbed)) ∧
    (∀ (backend : Backend σ) (dir : String) (options : BmcOptions) (model : String)
        (target : Target) (found : BmcSearch) (w w' : World σ),
      Ends (BmcSearch.search backend dir options model target) w (.ok found) w' →
      ∃ xs, w'.exchanges = w.exchanges ++ xs ∧
        (∀ x ∈ xs, ∃ known n timeout answer,
          x = .run (BmcSearch.claimModel model (target.claimBefore known)) n timeout answer) ∧
        found.finalTime = (completions xs).min? ∧
        ∀ ps, List.Forall₂ Prints xs ps → (∀ p? ∈ ps, ∀ p ∈ p?, p.Undisturbed) →
          found.finalTime = (ownCompletions ps).min?) ∧
    ∀ (c : Checker σ) (s : Schedule) (state : PlantState) (t : Task) (completion : Option Time)
        (w w' : World σ),
      Ends (c.check s state) w (.ok (.feasible t completion .bmc)) w' →
      ∃ time xs text n timeout answer, completion = some time ∧ time ≤ t.deadline ∧
        w'.exchanges = w.exchanges ++ xs ∧ .run text n timeout (.ok answer) ∈ xs ∧
        (∃ before after,
          Ends (c.backend.runBmc (Artifact.bmc.pathIn c.dir) n timeout) before (.ok answer) after) ∧
        answer.completion? = some time ∧ ∀ p : RunReports, p.PrintedBy answer → p.Yields time := by
  refine ⟨?_, ?_, ?_⟩
  · intro p answer hprinted
    exact hprinted.completion?_eq_own_iff
  · intro backend dir options model target found w w' h
    exact BmcSearch.finalTime_of_reports h
  · intro c s state t completion w w' h
    obtain ⟨xs, hxs, -, -, hjustified⟩ := check_justified h
    obtain ⟨earlier, t', -, htask, hground, -⟩ := hjustified (by simp)
    obtain rfl : t = t' := Option.some.inj htask
    cases hground with
    | @completed time haccepted hmet =>
        obtain ⟨before, x, after, rfl, hx, -⟩ := haccepted
        unfold Exchange.completion? at hx
        split at hx
        · next text n timeout answer =>
            have hmem : .run text n timeout (.ok answer) ∈
                before ++ .run text n timeout (.ok answer) :: after := by simp
            refine ⟨time, _, text, n, timeout, answer, rfl, hmet, hxs, hmem, ?_, hx, ?_⟩
            · exact ends_runBmc_of_mem h hxs hmem
            · intro p hprinted
              exact hprinted.yields hx
        · simp at hx

/-- The reports of a run on a model that promises more than it keeps: the state at time 3 refutes
the promise, but not the claim. -/
def brokenPromise : RunReports where
  before := [.refuted "G (time < 3)" ["  -> State: 1.2 <-", "    time = 3"]]
  own := .unrefuted "no counterexample found with bound 100" [] (by decide +kernel)
  after := []

/-- What a run prints in one second. -/
def brokenAnswer : BmcAnswer :=
  ⟨(ofReports brokenPromise.all).toUTF8, some (.ofParts 1 0)⟩

/-- A checker of such a model. -/
def promising : Checker Unit :=
  { carefree with
    backend := { agreeable with runBmc := fun _ _ _ => pure brokenAnswer }
    combiner := fun _ _ tree solver =>
      ⟨.ok "MODULE main\nVAR\n    time : 0..10;\nLTLSPEC G (time < 3)", [], tree, solver⟩ }

theorem printedBy_brokenAnswer : brokenPromise.PrintedBy brokenAnswer :=
  ⟨rfl, by decide +kernel⟩

/-- The task is declared feasible at time 3 although its claim is not refuted: the time is that of
the state that refutes the promise of the model. -/
theorem completion_rests_on_reports_brokenPromise :
    ∃ w', Ends (promising.check lone ⟨0, .null, []⟩) ⟨.empty, [], (), []⟩
        (.ok (.feasible loneTask (some 3) .bmc)) w' ∧
      (∃ text n timeout, .run text n timeout (.ok brokenAnswer) ∈ w'.exchanges) ∧
      brokenAnswer.completion? = some 3 ∧ brokenPromise.Yields 3 ∧
      brokenPromise.own.completion? = none ∧ ¬ brokenPromise.Undisturbed := by
  obtain ⟨v, w', h, hv⟩ := exists_ends_ok_of_endsIn
    (promising.check lone ⟨0, .null, []⟩) ⟨.empty, [], (), []⟩
    (fun v => v = .feasible loneTask (some 3) .bmc) (by decide +kernel)
  obtain rfl := of_decide_eq_true hv
  obtain ⟨hown, -, hverdict⟩ := @completion_rests_on_reports Unit
  obtain ⟨time, xs, text, n, timeout, answer, htime, -, hxs, hmem, ⟨before, after, hrun⟩,
    hcompletion, hyields⟩ := hverdict promising lone ⟨0, .null, []⟩ loneTask (some 3) _ w' h
  obtain rfl := Option.some.inj htime
  obtain rfl := Except.ok.inj (ends_pure.1 hrun).1
  obtain rfl : w'.exchanges = xs := hxs
  have hunrefuted : brokenPromise.own.completion? = none := rfl
  refine ⟨w', h, ⟨text, n, timeout, hmem⟩, hcompletion, hyields _ printedBy_brokenAnswer,
    hunrefuted, ?_⟩
  intro hundisturbed
  have hown := (hown _ _ printedBy_brokenAnswer).2 hundisturbed
  rw [hcompletion, hunrefuted] at hown
  simp at hown

end Checker

end Punctual
