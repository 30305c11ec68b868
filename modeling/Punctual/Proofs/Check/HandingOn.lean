import Punctual.Proofs.Check.Certificate

/-!
# Infeasible deadlines handed on

While a session searches, it hands every deadline that is answered as infeasible to a recipient, so
that whoever follows a search that breaks off still knows the best bound. This module says what a
recipient sees of any session: the model checker may answer anything or fail, the recipient may do
anything or break off.

`Steps` is what a session does between two worlds. A recipient that keeps a list of what it is
handed has the deadlines of the steps in that list (`Steps.kept`), so the steps are what a recipient
can tell. `HandsOn` says in which order they come and how they determine the end of the session.
-/

namespace Punctual.Check

variable {σ : Type} {backend : Backend σ} {s : Schedule} {counts : Counts} {t : Task}
  {onInfeasible : Time → Check σ Unit} {w m w' : World σ} {g : Target}

/-! ## Steps -/

/-- A step of a session that somebody else takes part in. -/
inductive SessionStep
  /-- The model checker is asked about a deadline. -/
  | asked (deadline : Time) (answer : Except SolverError (Option String))
  /-- The recipient is handed a deadline. -/
  | handed (deadline : Time) (outcome : Except (Stop CheckError) Unit)

namespace SessionStep

/-- The deadline that the model checker answers as infeasible. -/
def refuted? : SessionStep → Option Time
  | asked deadline (.ok none) => some deadline
  | _ => none

/-- The deadline that the recipient is handed. -/
def handed? : SessionStep → Option Time
  | asked _ _ => none
  | handed deadline _ => some deadline

/-- The reason for which the model checker or the recipient breaks off. -/
def stop? : SessionStep → Option (Stop CheckError)
  | asked _ (.error e) => some (.error (.solver e))
  | handed _ (.error stop) => some stop
  | _ => none

/-- The deadlines answered as infeasible, in order. -/
def allRefuted (steps : List SessionStep) : List Time :=
  steps.filterMap refuted?

/-- The deadlines handed on, in order. -/
def allHanded (steps : List SessionStep) : List Time :=
  steps.filterMap handed?

end SessionStep

open SessionStep

/-- The steps between two worlds. Reports are no steps. -/
inductive Steps (backend : Backend σ) (g : Target) (onInfeasible : Time → Check σ Unit) :
    World σ → List SessionStep → World σ → Prop
  | nil (w : World σ) : Steps backend g onInfeasible w [] w
  | reported {w w' : World σ} {steps : List SessionStep} (reports : Log)
      (hrest : Steps backend g onInfeasible (w.logged reports) steps w') :
      Steps backend g onInfeasible w steps w'
  | asked {w w' : World σ} {deadline : Time} {answer : Except SolverError (Option String)}
      {tree : Tree} {solver : σ} {steps : List SessionStep}
      (hanswer : Ends (backend.getPath (g.reachedBy deadline)) (w.tree, w.solver) answer
        (tree, solver))
      (hrest : Steps backend g onInfeasible
        { w with
          tree := tree, solver := solver,
          exchanges := w.exchanges ++ [.query (g.reachedBy deadline) answer] } steps w') :
      Steps backend g onInfeasible w (.asked deadline answer :: steps) w'
  | handed {w m w' : World σ} {deadline : Time} {outcome : Except (Stop CheckError) Unit}
      {steps : List SessionStep} (hheard : Ends (onInfeasible deadline) w outcome m)
      (hrest : Steps backend g onInfeasible m steps w') :
      Steps backend g onInfeasible w (.handed deadline outcome :: steps) w'

theorem Steps.append {steps more : List SessionStep}
    (h : Steps backend g onInfeasible w steps m)
    (h' : Steps backend g onInfeasible m more w') :
    Steps backend g onInfeasible w (steps ++ more) w' := by
  induction h with
  | nil => exact h'
  | reported reports _ ih => exact .reported reports (ih h')
  | asked hanswer _ ih => exact .asked hanswer (ih h')
  | handed hheard _ ih => exact .handed hheard (ih h')

/-- A recipient that keeps a list of what it is handed, whatever it does otherwise, has the
deadlines of the steps in it. -/
theorem Steps.kept {kept : World σ → List Time} {steps : List SessionStep}
    (hlogged : ∀ w reports, kept (w.logged reports) = kept w)
    (hasked : ∀ (w : World σ) target answer tree solver exchanges,
      Ends (backend.getPath target) (w.tree, w.solver) answer (tree, solver) →
        kept ⟨tree, w.log, solver, exchanges⟩ = kept w)
    (hheard : ∀ deadline w r w', Ends (onInfeasible deadline) w r w' →
      kept w' = kept w ++ [deadline])
    (h : Steps backend g onInfeasible w steps w') : kept w' = kept w ++ allHanded steps := by
  induction h with
  | nil => exact (List.append_nil _).symm
  | reported reports _ ih => rw [ih, hlogged]
  | asked hanswer _ ih =>
      rw [ih]
      exact congrArg (· ++ _) (hasked _ _ _ _ _ _ hanswer)
  | handed hends _ ih =>
      rw [ih, hheard _ _ _ _ hends, List.append_assoc]
      rfl

/-! ## The order of the steps -/

/-- A deadline answered as infeasible is handed on in the next step, and nothing else is. -/
inductive Paired : List SessionStep → Prop
  | nil : Paired []
  | answered {deadline : Time} {answer : Except SolverError (Option String)}
      {steps : List SessionStep} (hanswer : answer ≠ .ok none) (hrest : Paired steps) :
      Paired (.asked deadline answer :: steps)
  | refuted {deadline : Time} {outcome : Except (Stop CheckError) Unit}
      {steps : List SessionStep} (hrest : Paired steps) :
      Paired (.asked deadline (.ok none) :: .handed deadline outcome :: steps)

theorem refuted?_asked {deadline : Time} {answer : Except SolverError (Option String)}
    (h : answer ≠ .ok none) : (SessionStep.asked deadline answer).refuted? = none := by
  match answer with
  | .error e => rfl
  | .ok (some path) => rfl
  | .ok none => exact absurd rfl h

/-- Exactly the deadlines answered as infeasible are handed on. -/
theorem Paired.allHanded_eq {steps : List SessionStep} (h : Paired steps) :
    allHanded steps = allRefuted steps := by
  induction h with
  | nil => rfl
  | answered hanswer _ ih =>
      rw [allRefuted, List.filterMap_cons, refuted?_asked hanswer]
      exact ih
  | @refuted deadline _ _ _ ih => exact congrArg (deadline :: ·) ih

/-- Whoever breaks off ends the session with the very reason, and nothing else is an error of it. -/
structure EndedBy (steps : List SessionStep) (r : Except (Stop CheckError) Reachability) :
    Prop where
  stops : ∀ step ∈ steps, ∀ stop, step.stop? = some stop →
    r = .error stop ∧ steps.getLast? = some step
  stopped : ∀ e, r = .error (.error e) →
    ∃ step, steps.getLast? = some step ∧ step.stop? = some (.error e)

/-- What a recipient can tell of a session of a task, given how the session ends. -/
structure HandsOn (deadline : Time) (steps : List SessionStep)
    (r : Except (Stop CheckError) Reachability) : Prop where
  /-- A deadline is handed on right after its answer, before the next question. -/
  paired : Paired steps
  /-- Each deadline answered as infeasible is handed on once, and no other. -/
  handed_eq : allHanded steps = allRefuted steps
  increasing : (allHanded steps).Pairwise (· < ·)
  /-- The first deadline handed on is that of the task. -/
  first : ∀ d ∈ (allHanded steps).head?, d = deadline
  /-- The last deadline handed on is the largest one answered as infeasible. -/
  greatest : ∀ d ∈ (allHanded steps).getLast?, ∀ d' ∈ allRefuted steps, d' ≤ d
  /-- Bounds that the session ends with name the last deadline handed on. -/
  named : ∀ b, r = .ok (.infeasible b) ∨ r = .ok (.delayAssumed b) →
    (allHanded steps).getLast? = some b.lower
  endedBy : EndedBy steps r

theorem le_of_getLast? {ds : List Time} {last : Time} (hordered : ds.Pairwise (· < ·))
    (hlast : ds.getLast? = some last) : ∀ d ∈ ds, d ≤ last := by
  obtain ⟨before, rfl⟩ := List.getLast?_eq_some_iff.1 hlast
  intro d hd
  rcases List.mem_append.1 hd with hbefore | hself
  · have hlt := (List.pairwise_append.1 hordered).2.2 d hbefore last List.mem_cons_self
    exact Int.le_of_lt hlt
  · exact Int.le_of_eq (List.mem_singleton.1 hself)

/-- Steps that break off nowhere, together with the deadlines that they are about. -/
inductive Went : Answers → List SessionStep → Prop
  | nil : Went [] []
  | feasible {deadline : Time} {path : String} {asked : Answers} {steps : List SessionStep}
      (hrest : Went asked steps) :
      Went ((deadline, true) :: asked) (.asked deadline (.ok (some path)) :: steps)
  | infeasible {deadline : Time} {asked : Answers} {steps : List SessionStep}
      (hrest : Went asked steps) :
      Went ((deadline, false) :: asked)
        (.asked deadline (.ok none) :: .handed deadline (.ok ()) :: steps)

/-- The steps of a question in which somebody breaks off. -/
inductive Halted (deadline : Time) : Stop CheckError → List SessionStep → Prop
  | unanswered (e : SolverError) :
      Halted deadline (.error (.solver e)) [.asked deadline (.error e)]
  | unheard (stop : Stop CheckError) :
      Halted deadline stop [.asked deadline (.ok none), .handed deadline (.error stop)]

namespace Went

variable {asked : Answers} {steps more : List SessionStep}

theorem paired_append (h : Went asked steps) (hmore : Paired more) : Paired (steps ++ more) := by
  induction h with
  | nil => exact hmore
  | feasible _ ih => exact .answered nofun ih
  | infeasible _ ih => exact .refuted ih

theorem paired (h : Went asked steps) : Paired steps := by
  have hpaired := h.paired_append .nil
  rwa [List.append_nil] at hpaired

theorem allHanded_eq (h : Went asked steps) : allHanded steps = asked.infeasible := by
  induction h with
  | nil => rfl
  | feasible _ ih => exact ih
  | @infeasible deadline _ _ _ ih => exact congrArg (deadline :: ·) ih

theorem stop?_eq_none (h : Went asked steps) : ∀ step ∈ steps, step.stop? = none := by
  induction h with
  | nil => simp
  | feasible _ ih => exact List.forall_mem_cons.2 ⟨rfl, ih⟩
  | infeasible _ ih => exact List.forall_mem_cons.2 ⟨rfl, List.forall_mem_cons.2 ⟨rfl, ih⟩⟩

end Went

/-- If nobody breaks off, no error ends the session. -/
theorem Went.endedBy {asked : Answers} {steps : List SessionStep}
    {r : Except (Stop CheckError) Reachability} (h : Went asked steps)
    (hr : ∀ e, r ≠ .error (.error e)) : EndedBy steps r where
  stops step hstep stop hstop := by
    rw [h.stop?_eq_none step hstep] at hstop
    simp at hstop
  stopped e he := absurd he (hr e)

namespace Halted

variable {later : Time} {asked : Answers} {steps more : List SessionStep}
  {stop : Stop CheckError}

theorem paired (h : Halted later stop steps) : Paired steps := by
  cases h with
  | unanswered => exact .answered nofun .nil
  | unheard => exact .refuted .nil

/-- The last step, and only that one, breaks off. -/
theorem concludes (h : Halted later stop steps) :
    ∃ before last, steps = before ++ [last] ∧ last.stop? = some stop ∧
      ∀ step ∈ before, step.stop? = none := by
  cases h with
  | unanswered e => exact ⟨[], _, rfl, rfl, by simp⟩
  | unheard => exact ⟨[_], _, rfl, rfl, List.forall_mem_singleton.2 rfl⟩

theorem endedBy (h : Halted later stop more) (hwent : Went asked steps) :
    EndedBy (steps ++ more) (.error stop) := by
  obtain ⟨before, last, rfl, hlast, hbefore⟩ := h.concludes
  have hend : (steps ++ (before ++ [last])).getLast? = some last := by
    rw [← List.append_assoc]
    exact List.getLast?_concat
  constructor
  · intro step hstep stop' hstop
    rcases List.mem_append.1 hstep with hsteps | hmore
    · rw [hwent.stop?_eq_none step hsteps] at hstop
      simp at hstop
    · rcases List.mem_append.1 hmore with hfirst | hself
      · rw [hbefore step hfirst] at hstop
        simp at hstop
      · obtain rfl := List.mem_singleton.1 hself
        obtain rfl := Option.some.inj (hlast.symm.trans hstop)
        exact ⟨rfl, hend⟩
  · intro e he
    obtain rfl := Except.error.inj he
    exact ⟨last, hend, hlast⟩

end Halted

namespace HandsOn

variable {deadline horizonEnd later : Time} {asked : Answers} {b : DelayBounds}
  {steps more : List SessionStep} {r : Except (Stop CheckError) Reachability}
  {stop : Stop CheckError}

/-- Deadlines that narrow the bounds come in the right order, up to the lower bound. -/
theorem of_narrows (hpaired : Paired steps)
    (hnarrows : Narrows horizonEnd (.ofDeadline deadline) asked b)
    (hhanded : allHanded steps = deadline :: asked.infeasible)
    (hnamed : ∀ b', r = .ok (.infeasible b') ∨ r = .ok (.delayAssumed b') → b'.lower = b.lower)
    (hended : EndedBy steps r) : HandsOn deadline steps r := by
  have hincreasing : (allHanded steps).Pairwise (· < ·) := by
    rw [hhanded]
    exact hnarrows.pairwise_infeasible
  have hlast : (allHanded steps).getLast? = some b.lower := by
    rw [hhanded]
    exact hnarrows.getLast?_infeasible
  refine ⟨hpaired, hpaired.allHanded_eq, hincreasing, ?_, ?_, ?_, hended⟩
  · rw [hhanded]
    rintro d ⟨⟩
    rfl
  · rw [← hpaired.allHanded_eq]
    intro d hd
    exact le_of_getLast? hincreasing hd
  · intro b' hb'
    rw [hlast, hnamed b' hb']

/-- A session without infeasible deadlines hands nothing on. -/
theorem of_silent (hpaired : Paired steps) (hnone : allHanded steps = [])
    (hnamed : ∀ b, ¬ (r = .ok (.infeasible b) ∨ r = .ok (.delayAssumed b)))
    (hended : EndedBy steps r) : HandsOn deadline steps r := by
  refine ⟨hpaired, hpaired.allHanded_eq, ?_, ?_, ?_, fun b hb => absurd hb (hnamed b), hended⟩
  · rw [hnone]
    exact .nil
  · simp [hnone]
  · simp [hnone]

/-- A search that goes on from the deadline of the task and breaks off at a later one, or at no
one. -/
theorem of_halted (hwent : Went ((deadline, false) :: asked) steps)
    (hnarrows : Narrows horizonEnd (.ofDeadline deadline) asked b)
    (hbracket : b.Bracket horizonEnd later) (hhalted : Halted later stop more) :
    HandsOn deadline (steps ++ more) (.error stop) := by
  have hpaired : Paired (steps ++ more) := hwent.paired_append hhalted.paired
  have hended := hhalted.endedBy hwent
  have hsteps : allHanded steps = deadline :: asked.infeasible := hwent.allHanded_eq
  cases hhalted with
  | unanswered e =>
      refine of_narrows hpaired hnarrows ?_ (by simp) hended
      rw [allHanded, List.filterMap_append, ← allHanded, hsteps]
      exact List.append_nil _
  | unheard =>
      have hmore : Narrows horizonEnd (.ofDeadline deadline) (asked ++ [(later, false)])
          (b.answered later false) :=
        hnarrows.concat hbracket false
      refine of_narrows hpaired hmore ?_ (by simp) hended
      have hlater : (asked ++ [(later, false)]).infeasible = asked.infeasible ++ [later] := by
        simp [Answers.infeasible]
      rw [allHanded, List.filterMap_append, ← allHanded, hsteps, hlater]
      rfl

end HandsOn

/-! ## The steps of a session -/

section Sessions

variable {dir : String} {deadline : Time} {asked : Answers} {stop : Stop CheckError}

/-- A course of questions goes through the steps of these questions. -/
theorem steps_of_course {es : List Event} (h : Course backend .builtin dir w es w') :
    ∀ qs : List (Time × Except SolverError (Option String)),
      es = qs.map (fun q => queryEvent g q.1 q.2) →
        Steps backend g onInfeasible w (qs.map fun q => .asked q.1 q.2) w' := by
  induction h with
  | nil w =>
      intro qs hqs
      obtain rfl := List.map_eq_nil_iff.1 hqs.symm
      exact .nil w
  | cons hmove _ ih =>
      intro qs hqs
      cases hmove with
      | reported reports => exact .reported reports (ih qs hqs)
      | combined files options =>
          -- the combiner that does all itself changes neither the files nor the model checker
          exact .reported (Combiner.builtin files options _ _).reports (ih qs hqs)
      | wrote =>
          cases qs with
          | nil => simp at hqs
          | cons q qs => simp [queryEvent] at hqs
      | asked hholds =>
          cases qs with
          | nil => simp at hqs
          | cons q qs =>
              obtain ⟨hfirst, hrest⟩ := List.cons.inj hqs
              obtain rfl := Event.asked.inj hfirst
              exact .asked hholds (ih qs hrest)

/-- One question is one step. -/
theorem steps_of_queryEvent {answer : Except SolverError (Option String)}
    (h : Course backend .builtin dir w [queryEvent g deadline answer] w') :
    Steps backend g onInfeasible w [.asked deadline answer] w' :=
  steps_of_course h [(deadline, answer)] rfl

theorem Probing.steps (h : Probing backend .builtin dir g onInfeasible w asked w') :
    ∃ steps, Went asked steps ∧ Steps backend g onInfeasible w steps w' := by
  induction h with
  | nil hsilent => exact ⟨[], .nil, steps_of_course hsilent [] rfl⟩
  | feasible hasked _ ih =>
      obtain ⟨steps, hwent, hrest⟩ := ih
      exact ⟨_, .feasible hwent, (steps_of_queryEvent hasked).append hrest⟩
  | infeasible hasked hheard _ ih =>
      obtain ⟨steps, hwent, hrest⟩ := ih
      exact ⟨_, .infeasible hwent, (steps_of_queryEvent hasked).append (.handed hheard hrest)⟩

theorem Breaks.steps (h : Breaks backend .builtin dir g onInfeasible deadline w stop w') :
    ∃ steps, Halted deadline stop steps ∧ Steps backend g onInfeasible w steps w' := by
  cases h with
  | unanswered hasked => exact ⟨_, .unanswered _, steps_of_queryEvent hasked⟩
  | unheard hasked hheard =>
      exact ⟨_, .unheard _, (steps_of_queryEvent hasked).append (.handed hheard (.nil _))⟩

/-- Whatever a session does, it hands on infeasible deadlines in order. -/
theorem ReachabilityCourse.handsOn {horizonEnd : Time} {searchDelay : Bool}
    {r : Except (Stop CheckError) Reachability}
    (h : ReachabilityCourse backend .builtin dir horizonEnd deadline g searchDelay onInfeasible w
      r w') :
    ∃ steps, Steps backend g onInfeasible w steps w' ∧ HandsOn deadline steps r := by
  cases h with
  | undecided hbreaks =>
      obtain ⟨steps, hhalted, hsteps⟩ := hbreaks.steps
      have hended := hhalted.endedBy .nil
      refine ⟨steps, hsteps, ?_⟩
      cases hhalted with
      | unanswered e => exact .of_silent (.answered nofun .nil) rfl (by simp) hended
      | unheard =>
          have hnarrows : Narrows horizonEnd (.ofDeadline deadline) [] (.ofDeadline deadline) :=
            .nil _
          exact .of_narrows (.refuted .nil) hnarrows rfl (by simp) hended
  | @feasible path _ hasked =>
      have hwent : Went [(deadline, true)] [.asked deadline (.ok (some path))] := .feasible .nil
      exact ⟨_, steps_of_queryEvent hasked,
        .of_silent hwent.paired rfl (by simp) (hwent.endedBy nofun)⟩
  | assumed _ hprobing =>
      obtain ⟨steps, hwent, hsteps⟩ := hprobing.steps
      have hnarrows : Narrows horizonEnd (.ofDeadline deadline) [] (.ofDeadline deadline) :=
        .nil _
      refine ⟨steps, hsteps, .of_narrows hwent.paired hnarrows hwent.allHanded_eq ?_
        (hwent.endedBy nofun)⟩
      rintro b (⟨⟨⟩⟩ | ⟨⟨⟩⟩)
      rfl
  | searched _ hprobing hnarrows _ =>
      obtain ⟨steps, hwent, hsteps⟩ := hprobing.steps
      refine ⟨steps, hsteps, .of_narrows hwent.paired hnarrows hwent.allHanded_eq ?_
        (hwent.endedBy nofun)⟩
      rintro b (⟨⟨⟩⟩ | ⟨⟨⟩⟩)
      rfl
  | broken _ hprobing hnarrows hbracket hbreaks =>
      obtain ⟨steps, hwent, hsteps⟩ := hprobing.steps
      obtain ⟨more, hhalted, hmore⟩ := hbreaks.steps
      exact ⟨_, hsteps.append hmore, .of_halted hwent hnarrows hbracket hhalted⟩
  | wide _ hprobing hnarrows _ _ =>
      obtain ⟨steps, hwent, hsteps⟩ := hprobing.steps
      exact ⟨steps, hsteps, .of_narrows hwent.paired hnarrows hwent.allHanded_eq (by simp)
        (hwent.endedBy nofun)⟩

end Sessions

/-- Of the schedule a session uses only the horizon. -/
theorem reachability_congr {s' : Schedule} (h : s'.horizon = s.horizon) (searchDelay : Bool) :
    reachability backend s' counts t searchDelay onInfeasible =
      reachability backend s counts t searchDelay onInfeasible := by
  have hrelaxed : s'.relaxed = s.relaxed := by
    funext t deadline
    unfold Schedule.relaxed Schedule.single
    rw [h]
  unfold reachability probeRecorded probe relaxedTarget
  rw [hrelaxed, h]

/-- A session of a task hands exactly the deadlines answered as infeasible on, in increasing order
from the deadline of the task, each before it asks again. It ends with the last one as the lower
bound, or with the very reason for which the model checker or the recipient broke off. -/
theorem reachability_handsOn {searchDelay : Bool} {r : Except (Stop CheckError) Reachability}
    (hfits : t.window.FitsIn s.horizon)
    (h : Ends (reachability backend s counts t searchDelay onInfeasible) w r w') :
    ∃ steps, Steps backend (counts.targetOf t) onInfeasible w steps w' ∧
      HandsOn t.deadline steps r := by
  have hunits : ∀ u ∈ Units.tasks [(t.unit, [⟨t.name, t.window⟩])], u.window.FitsIn s.horizon :=
    List.forall_mem_singleton.2 hfits
  let alone : Schedule := ⟨s.horizon, _, s.opens_le_closes, hunits⟩
  have ht : t ∈ alone.units.tasks := List.mem_singleton_self t
  have halone : Ends (reachability backend alone counts t searchDelay onInfeasible) w r w' := by
    rw [reachability_congr (rfl : alone.horizon = s.horizon)]
    exact h
  by_cases hcount : counts.get t.unit t.name < maxCount
  · exact (reachability_course Combiner.builtin "" ht hcount halone).handsOn
  · obtain ⟨rfl, rfl⟩ := reachability_of_maxCount ht hcount halone
    exact ⟨[], .nil _, .of_silent .nil rfl (by simp) (Went.nil.endedBy nofun)⟩

/-- A session in which deadlines from 7 on are feasible, with a recipient that reports what it is
handed. -/
theorem reachability_handsOn_since_seven :
    ∃ r w' steps,
      Ends (reachability Script.backend lone .empty loneTask true fun d => info (toString d))
        ⟨.empty, [], ⟨[], none, .since 7⟩, []⟩ r w' ∧
      Steps Script.backend (Counts.empty.targetOf loneTask) (fun d => info (toString d))
        ⟨.empty, [], ⟨[], none, .since 7⟩, []⟩ steps w' ∧
      HandsOn 5 steps r := by
  obtain ⟨r, w', h⟩ := exists_ends
    (reachability Script.backend lone .empty loneTask true fun d => info (toString d))
    ⟨.empty, [], ⟨[], none, .since 7⟩, []⟩
  obtain ⟨steps, hsteps, hhandsOn⟩ := reachability_handsOn (by decide) h
  exact ⟨r, w', steps, h, hsteps, hhandsOn⟩

end Punctual.Check
