import Punctual.Proofs.Check.HandingOn
import Punctual.Proofs.Check.Recording

/-!
# Questions of a session

Each question of a session is made anew: the task gets another deadline, stands alone in a schedule,
and is looked up in the specification of this schedule. All questions are still about the same
occurrence, the one that the task alone is specified by, and their deadlines lie between that of the
task and the end of the horizon. So none of these steps fails: a session breaks off only where the
model checker or the recipient of infeasible deadlines does, or where the gap between two deadlines
is out of range (`reachability_asks`). No deadline is asked about twice (`reachability_asksOnce`).
-/

namespace Punctual

/-- The question about a target, spelled out. -/
theorem Target.reachedBy_eq (g : Target) (deadline : Time) :
    g.reachedBy deadline =
      "(" ++ g.counter ++ " = " ++ toString g.count ++ ") & (time <= " ++ toString deadline ++
        ")" := by
  have hmiddle : ") & (" ++ PlantState.timeVariable ++ " <= " = ") & (time <= " := by decide
  rw [← hmiddle, Target.reachedBy]
  simp only [String.append_assoc]

namespace Check

open SessionStep

variable {σ : Type}

/-- The deadline that the model checker is asked about. -/
def SessionStep.asked? : SessionStep → Option Time
  | asked deadline _ => some deadline
  | handed _ _ => none

/-- The deadlines that the model checker is asked about, in order. -/
def SessionStep.allAsked (steps : List SessionStep) : List Time :=
  steps.filterMap asked?

/-- The steps hold the reason for which a session breaks off. -/
inductive Blames (steps : List SessionStep) : Stop CheckError → Prop
  | modelChecker {deadline : Time} {e : SolverError} (hasked : asked deadline (.error e) ∈ steps) :
      Blames steps (.error (.solver e))
  | recipient {deadline : Time} {stop : Stop CheckError}
      (hhanded : handed deadline (.error stop) ∈ steps) : Blames steps stop
  /-- The gap between an infeasible and a feasible deadline is out of range. -/
  | overflow {lower upper : Time} {path : String} {f : Fault}
      (hlower : asked lower (.ok none) ∈ steps) (hupper : asked upper (.ok (some path)) ∈ steps)
      (hgap : Time.sub upper lower = .error f) : Blames steps (.fault f)

/-- The steps ask about deadlines from that of the task to the end of the horizon, and hold the
reason if they break off. -/
structure AsksWithinHorizon (deadline horizonEnd : Time) (steps : List SessionStep)
    (r : Except (Stop CheckError) Reachability) : Prop where
  within : ∀ d answer, asked d answer ∈ steps → deadline ≤ d ∧ d ≤ horizonEnd
  blames : ∀ stop, r = .error stop → Blames steps stop

section Steps

variable {asks : Answers} {steps more : List SessionStep} {deadline later : Time}
  {stop : Stop CheckError} {answer : Except SolverError (Option String)}

theorem Blames.append (h : Blames more stop) (steps : List SessionStep) :
    Blames (steps ++ more) stop := by
  cases h with
  | modelChecker hasked => exact .modelChecker (List.mem_append_right _ hasked)
  | recipient hhanded => exact .recipient (List.mem_append_right _ hhanded)
  | overflow hlower hupper hgap =>
      exact .overflow (List.mem_append_right _ hlower) (List.mem_append_right _ hupper) hgap

theorem Halted.blames (h : Halted later stop steps) : Blames steps stop := by
  cases h with
  | unanswered e => exact .modelChecker List.mem_cons_self
  | unheard => exact .recipient (List.mem_cons_of_mem _ List.mem_cons_self)

theorem Halted.eq_of_mem (h : Halted later stop steps) (hmem : asked deadline answer ∈ steps) :
    deadline = later := by
  cases h with
  | unanswered e =>
      obtain ⟨rfl, -⟩ := SessionStep.asked.inj (List.mem_singleton.1 hmem)
      rfl
  | unheard =>
      rcases List.mem_cons.1 hmem with heq | htail
      · obtain ⟨rfl, -⟩ := SessionStep.asked.inj heq
        rfl
      · simp at htail

theorem Went.exists_mem_of_asked (h : Went asks steps) (hmem : asked deadline answer ∈ steps) :
    ∃ feasible, (deadline, feasible) ∈ asks := by
  induction h with
  | nil => simp at hmem
  | feasible _ ih =>
      rcases List.mem_cons.1 hmem with heq | htail
      · obtain ⟨rfl, -⟩ := SessionStep.asked.inj heq
        exact ⟨true, List.mem_cons_self⟩
      · obtain ⟨feasible, hasks⟩ := ih htail
        exact ⟨feasible, List.mem_cons_of_mem _ hasks⟩
  | infeasible _ ih =>
      rcases List.mem_cons.1 hmem with heq | htail
      · obtain ⟨rfl, -⟩ := SessionStep.asked.inj heq
        exact ⟨false, List.mem_cons_self⟩
      · obtain ⟨feasible, hasks⟩ := ih (by simpa using htail)
        exact ⟨feasible, List.mem_cons_of_mem _ hasks⟩

/-- Every answer was given in a step. -/
theorem Went.exists_asked (h : Went asks steps) {feasible : Bool}
    (hmem : (deadline, feasible) ∈ asks) :
    ∃ path : Option String, path.isSome = feasible ∧ asked deadline (.ok path) ∈ steps := by
  induction h with
  | nil => simp at hmem
  | @feasible _ path _ _ _ ih =>
      rcases List.mem_cons.1 hmem with heq | htail
      · obtain ⟨rfl, rfl⟩ := Prod.mk.inj heq
        exact ⟨some path, rfl, List.mem_cons_self⟩
      · obtain ⟨path', hpath, hasked⟩ := ih htail
        exact ⟨path', hpath, List.mem_cons_of_mem _ hasked⟩
  | infeasible _ ih =>
      rcases List.mem_cons.1 hmem with heq | htail
      · obtain ⟨rfl, rfl⟩ := Prod.mk.inj heq
        exact ⟨none, rfl, List.mem_cons_self⟩
      · obtain ⟨path, hpath, hasked⟩ := ih htail
        exact ⟨path, hpath, List.mem_cons_of_mem _ (List.mem_cons_of_mem _ hasked)⟩

theorem Went.allAsked_eq (h : Went asks steps) : allAsked steps = asks.map Prod.fst := by
  induction h with
  | nil => rfl
  | feasible _ ih => exact congrArg (_ :: ·) ih
  | infeasible _ ih => exact congrArg (_ :: ·) ih

theorem Halted.allAsked_eq (h : Halted later stop steps) : allAsked steps = [later] := by
  cases h <;> rfl

/-- What the recipient was handed, it was handed in some world. -/
theorem Steps.exists_ends_of_handed {backend : Backend σ} {g : Target}
    {onInfeasible : Time → Check σ Unit} {w w' : World σ}
    {outcome : Except (Stop CheckError) Unit}
    (h : Steps backend g onInfeasible w steps w')
    (hmem : SessionStep.handed deadline outcome ∈ steps) :
    ∃ m m', Ends (onInfeasible deadline) m outcome m' := by
  induction h with
  | nil => simp at hmem
  | reported _ _ ih => exact ih hmem
  | asked _ _ ih => exact ih (by simpa using hmem)
  | handed hheard _ ih =>
      rcases List.mem_cons.1 hmem with heq | htail
      · obtain ⟨rfl, rfl⟩ := SessionStep.handed.inj heq
        exact ⟨_, _, hheard⟩
      · exact ih htail

end Steps

/-! ## Sessions -/

section Sessions

variable {backend : Backend σ} {s : Schedule} {counts : Counts} {t : Task} {g : Target}
  {onInfeasible : Time → Check σ Unit} {w w' : World σ} {searchDelay : Bool}
  {deadline horizonEnd later : Time} {asks : Answers} {b : DelayBounds} {steps : List SessionStep}
  {r : Except (Stop CheckError) Reachability}

/-- Deadlines that narrow the bounds lie within the horizon. -/
theorem Went.within (hwent : Went ((deadline, false) :: asks) steps)
    (hnarrows : Narrows horizonEnd (.ofDeadline deadline) asks b) (hhorizon : deadline ≤ horizonEnd)
    {d : Time} {answer : Except SolverError (Option String)} (hmem : asked d answer ∈ steps) :
    deadline ≤ d ∧ d ≤ horizonEnd := by
  obtain ⟨feasible, hasks⟩ := hwent.exists_mem_of_asked hmem
  rcases List.mem_cons.1 hasks with heq | htail
  · obtain ⟨rfl, -⟩ := Prod.mk.inj heq
    exact ⟨Int.le_refl d, hhorizon⟩
  · exact (hnarrows.lt_and_le_of_mem htail).imp_left Int.le_of_lt

theorem ReachabilityCourse.asksWithinHorizon (hhorizon : deadline ≤ horizonEnd)
    (h : ReachabilityCourse backend .builtin "" horizonEnd deadline g searchDelay onInfeasible w
      r w') :
    ∃ steps, Steps backend g onInfeasible w steps w' ∧
      AsksWithinHorizon deadline horizonEnd steps r := by
  have hfirst : Narrows horizonEnd (.ofDeadline deadline) [] (.ofDeadline deadline) := .nil _
  cases h with
  | undecided hbreaks =>
      obtain ⟨steps, hhalted, hsteps⟩ := hbreaks.steps
      refine ⟨steps, hsteps, fun d answer hmem => ?_, ?_⟩
      · rw [hhalted.eq_of_mem hmem]
        exact ⟨Int.le_refl _, hhorizon⟩
      · rintro stop ⟨⟩
        exact hhalted.blames
  | feasible hasked =>
      refine ⟨_, steps_of_queryEvent hasked, fun d answer hmem => ?_, nofun⟩
      obtain ⟨rfl, -⟩ := SessionStep.asked.inj (List.mem_singleton.1 hmem)
      exact ⟨Int.le_refl _, hhorizon⟩
  | assumed _ hprobing =>
      obtain ⟨steps, hwent, hsteps⟩ := hprobing.steps
      exact ⟨steps, hsteps, fun d answer hmem => hwent.within hfirst hhorizon hmem, nofun⟩
  | searched _ hprobing hnarrows _ =>
      obtain ⟨steps, hwent, hsteps⟩ := hprobing.steps
      exact ⟨steps, hsteps, fun d answer hmem => hwent.within hnarrows hhorizon hmem, nofun⟩
  | broken _ hprobing hnarrows hbracket hbreaks =>
      obtain ⟨steps, hwent, hsteps⟩ := hprobing.steps
      obtain ⟨more, hhalted, hmore⟩ := hbreaks.steps
      refine ⟨_, hsteps.append hmore, fun d answer hmem => ?_, ?_⟩
      · rcases List.mem_append.1 hmem with hbefore | hlast
        · exact hwent.within hnarrows hhorizon hbefore
        · rw [hhalted.eq_of_mem hlast]
          exact ⟨Int.le_of_lt (Int.lt_of_le_of_lt hnarrows.lower_le hbracket.1), hbracket.2.1⟩
      · rintro stop ⟨⟩
        exact hhalted.blames.append steps
  | @wide asks b upper f _ _ hprobing hnarrows hupper hgap =>
      obtain ⟨steps, hwent, hsteps⟩ := hprobing.steps
      refine ⟨steps, hsteps, fun d answer hmem => hwent.within hnarrows hhorizon hmem, ?_⟩
      rintro stop ⟨⟩
      have hasks : (upper, true) ∈ asks := by
        rcases hnarrows.upper_eq_or_mem with heq | ⟨u, hu, hmem⟩
        · rw [hupper] at heq
          simp [DelayBounds.ofDeadline] at heq
        · obtain rfl := Option.some.inj (hupper.symm.trans hu)
          exact hmem
      obtain ⟨refused, hrefused, hlower⟩ := hwent.exists_asked hnarrows.lower_mem
      obtain ⟨found, hfound, hfeasible⟩ := hwent.exists_asked (List.mem_cons_of_mem _ hasks)
      obtain rfl : refused = none := by simpa using hrefused
      obtain ⟨path, rfl⟩ := Option.isSome_iff_exists.1 hfound
      exact .overflow hlower hfeasible hgap

/-- Deadlines that narrow the bounds are asked about once. -/
theorem Went.nodup_allAsked (hwent : Went ((deadline, false) :: asks) steps)
    (hnarrows : Narrows horizonEnd (.ofDeadline deadline) asks b) : (allAsked steps).Nodup := by
  rw [hwent.allAsked_eq]
  exact hnarrows.nodup_cons

theorem ReachabilityCourse.asksOnce
    (h : ReachabilityCourse backend .builtin "" horizonEnd deadline g searchDelay onInfeasible w
      r w') :
    ∃ steps, Steps backend g onInfeasible w steps w' ∧ (allAsked steps).Nodup := by
  cases h with
  | undecided hbreaks =>
      obtain ⟨steps, hhalted, hsteps⟩ := hbreaks.steps
      refine ⟨steps, hsteps, ?_⟩
      rw [hhalted.allAsked_eq]
      exact List.pairwise_singleton _ _
  | feasible hasked => exact ⟨_, steps_of_queryEvent hasked, List.pairwise_singleton _ _⟩
  | assumed _ hprobing =>
      obtain ⟨steps, hwent, hsteps⟩ := hprobing.steps
      have hnarrows : Narrows horizonEnd (.ofDeadline deadline) [] (.ofDeadline deadline) := .nil _
      exact ⟨steps, hsteps, hwent.nodup_allAsked hnarrows⟩
  | searched _ hprobing hnarrows _ =>
      obtain ⟨steps, hwent, hsteps⟩ := hprobing.steps
      exact ⟨steps, hsteps, hwent.nodup_allAsked hnarrows⟩
  | @broken asks b later stop m w' _ hprobing hnarrows hbracket hbreaks =>
      obtain ⟨steps, hwent, hsteps⟩ := hprobing.steps
      obtain ⟨more, hhalted, hmore⟩ := hbreaks.steps
      refine ⟨_, hsteps.append hmore, ?_⟩
      -- the question that breaks off is one more that lies between the bounds
      have hnodup := (hnarrows.concat hbracket false).nodup_cons
      rw [List.map_append, ← List.cons_append] at hnodup
      rw [allAsked, List.filterMap_append, ← allAsked, ← allAsked, hwent.allAsked_eq,
        hhalted.allAsked_eq]
      exact hnodup
  | wide _ hprobing hnarrows _ _ =>
      obtain ⟨steps, hwent, hsteps⟩ := hprobing.steps
      exact ⟨steps, hsteps, hwent.nodup_allAsked hnarrows⟩

/-- A session asks about no deadline twice. -/
theorem reachability_asksOnce (ht : t ∈ s.units.tasks)
    (h : Ends (reachability backend s counts t searchDelay onInfeasible) w r w') :
    ∃ steps, Steps backend (counts.targetOf t) onInfeasible w steps w' ∧
      (allAsked steps).Nodup := by
  by_cases hcount : counts.get t.unit t.name < maxCount
  · exact (reachability_course Combiner.builtin "" ht hcount h).asksOnce
  · obtain ⟨-, rfl⟩ := reachability_of_maxCount ht hcount h
    exact ⟨[], .nil _, .nil⟩

/-- All questions of a session are about the occurrence that the task alone is specified by, with
deadlines between that of the task and the end of the horizon. The session breaks off only where the
model checker or the recipient does, or where a gap is out of range; if the recipient records what
it is handed, no error is about a schedule or a missing target. -/
theorem reachability_asks (ht : t ∈ s.units.tasks) (hcount : counts.get t.unit t.name < maxCount)
    (h : Ends (reachability backend s counts t searchDelay onInfeasible) w r w') :
    ∃ sub spec g steps, s.single t = .ok sub ∧ DeadlineSpec.ofSchedule counts sub = .ok spec ∧
      spec.targetOf? t = some g ∧ g.counter = counterVariable t.unit t.name ∧
      (∀ d, g.reachedBy d =
        "(" ++ g.counter ++ " = " ++ toString g.count ++ ") & (time <= " ++ toString d ++ ")") ∧
      Steps backend g onInfeasible w steps w' ∧
      AsksWithinHorizon t.deadline s.horizon.closes steps r ∧
      ∀ recorder : Recorder, onInfeasible = recorder.handOn → ∀ e, r = .error (.error e) →
        (∃ cause, e = .solver cause) ∨
          ∃ cause, e = .artifact (Artifact.delay.pathIn recorder.dir) cause := by
  have hfits := s.fitsIn t ht
  obtain ⟨sub, hsub, hordered⟩ := Schedule.single_eq_ok hfits
  obtain ⟨spec, hspec, htarget⟩ := DeadlineSpec.ofSchedule_of_ordered hordered hcount
  obtain ⟨steps, hsteps, hasks⟩ :=
    (reachability_course Combiner.builtin "" ht hcount h).asksWithinHorizon hfits.2
  refine ⟨sub, spec, counts.targetOf t, steps, hsub, hspec, htarget, rfl,
    Target.reachedBy_eq _, hsteps, hasks, ?_⟩
  rintro recorder rfl e he
  cases hasks.blames _ he with
  | modelChecker => exact .inl ⟨_, rfl⟩
  | recipient hhanded =>
      obtain ⟨m, m', hends⟩ := hsteps.exists_ends_of_handed hhanded
      obtain ⟨-, ⟨f, -, hf⟩ | ⟨delay, cause, -, hcause⟩⟩ :=
        Recorder.record_error (Recorder.handOn_error hends)
      · simp at hf
      · exact .inr ⟨cause, Stop.error.inj hcause⟩

/-- A session of three questions, of which the model checker answers two. -/
theorem reachability_asks_until_closed :
    ∃ r w' sub spec g steps,
      Ends (reachability Script.backend lone .empty loneTask true fun d => info (toString d))
        ⟨.empty, [], ⟨[], none, .listed [.ok none, .ok none, .error .channelClosed]⟩, []⟩ r w' ∧
      lone.single loneTask = .ok sub ∧ DeadlineSpec.ofSchedule .empty sub = .ok spec ∧
      spec.targetOf? loneTask = some g ∧
      Steps Script.backend g (fun d => info (toString d))
        ⟨.empty, [], ⟨[], none, .listed [.ok none, .ok none, .error .channelClosed]⟩, []⟩ steps
        w' ∧
      AsksWithinHorizon 5 10 steps r := by
  obtain ⟨r, w', h⟩ := exists_ends
    (reachability Script.backend lone .empty loneTask true fun d => info (toString d))
    ⟨.empty, [], ⟨[], none, .listed [.ok none, .ok none, .error .channelClosed]⟩, []⟩
  obtain ⟨sub, spec, g, steps, hsub, hspec, htarget, -, -, hsteps, hasks, -⟩ :=
    reachability_asks (by decide) (by decide) h
  exact ⟨r, w', sub, spec, g, steps, h, hsub, hspec, htarget, hsteps, hasks⟩

end Sessions

end Check

end Punctual
