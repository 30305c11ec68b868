import Punctual.Proofs.Check.Decision

/-!
# Preparing a check

A check first finds its task, the target of the task and the model that is combined for it, and only
then talks to the model checker. Here the two parts are told apart: `Checker.prepare` ends with what
is known when the model is combined, `Checker.conclude` goes on from there, and a check is the one
after the other (`Checker.check_eq`).
-/

namespace Punctual

open Check

variable {σ : Type}

namespace Check

/-- The deadline specification of a task, given the counts of all tasks before it, and the target
that belongs to the task. -/
def specified (s : Schedule) (counts : Counts) (t : Task) : Check σ (DeadlineSpec × Target) := do
  let sub ← derived (s.single t)
  let spec ← specify counts sub
  match spec.targetOf? t with
  | none => Action.fail (.missingTarget t)
  | some target => return (spec, target)

/-- Writes what the model of a task is made of and combines it. -/
def combination (combiner : Combiner σ) (options : CombineOptions) (metadata : Option Metadata)
    (dir : String) (spec : DeadlineSpec) (state : PlantState) (t : Task) : Check σ String := do
  let schedulePath ← Artifact.write dir .schedule spec.text
  let statePath ← Artifact.write dir .state state.initText
  let files ← metadataFiles metadata t
  combined (combiner (schedulePath :: statePath :: files) options)

theorem assemble_eq (combiner : Combiner σ) (options : CombineOptions)
    (metadata : Option Metadata) (dir : String) (spec : DeadlineSpec) (state : PlantState)
    (t : Task) :
    assemble combiner options metadata dir spec state t = do
      let model ← combination combiner options metadata dir spec state t
      let path ← Artifact.write dir .combined model
      info ("Combined model of task " ++ t.text ++ " written to " ++ path)
      return (path, model) := by
  simp only [assemble, combination, bind_assoc]

end Check

/-- What is known about a check when the model of its task is combined. -/
structure Prepared where
  counts : Counts
  task : Task
  target : Target
  model : String

namespace Checker

variable {c : Checker σ} {s : Schedule} {state : PlantState} {counts : Counts} {t : Task}

/-- Prepares the check of a task, given the counts of all tasks before it. -/
def prepareTask (c : Checker σ) (s : Schedule) (state : PlantState) (counts : Counts) (t : Task) :
    Check σ Prepared := do
  let (spec, target) ← specified s counts t
  let model ← combination c.combiner c.options.combine c.metadata c.dir spec state t
  return ⟨counts, t, target, model⟩

/-- Prepares the check of the task that is due first, if there is one. -/
def prepare (c : Checker σ) (s : Schedule) (state : PlantState) : Check σ (Option Prepared) := do
  let _ ← Artifact.writePlaceholder c.dir
  match select s.ordered state.time c.options.keyUnit with
  | none =>
    Check.info ("No task active at time " ++ toString state.time)
    return none
  | some (i, t, active) =>
    if 1 < active then
      Check.warn (toString active ++ " tasks are active at time " ++ toString state.time ++
        ", only checking " ++ t.text)
    Check.info ("Checking task " ++ t.text ++ " at time " ++ toString state.time)
    let counts ← Action.ofFault (Counts.ofTasks (s.ordered.take i))
    let prepared ← c.prepareTask s state counts t
    return some prepared

/-- Decides after a search what the task is. -/
def judgeSearch (c : Checker σ) (s : Schedule) (state : PlantState) (counts : Counts) (t : Task)
    (path : String) (found : BmcSearch) : Check σ Verdict := do
  if found.meets t.deadline then
    if let some trace := found.counterexample then
      let _ ← Artifact.writePath c.dir trace
    Check.info ("Task " ++ t.text ++ " meets its deadline (bounded model checking)")
    return .feasible t found.finalTime .bmc
  else c.decideInconclusive s state counts t path found

/-- What a check does once its model is combined. -/
def conclude (c : Checker σ) (s : Schedule) (state : PlantState) (p : Prepared) :
    Check σ Verdict := do
  let path ← Artifact.write c.dir .combined p.model
  Check.info ("Combined model of task " ++ p.task.text ++ " written to " ++ path)
  let found ← BmcSearch.search c.backend c.dir c.options.bmc p.model p.target
  c.judgeSearch s state p.counts p.task path found

theorem checkTask_eq (c : Checker σ) (s : Schedule) (state : PlantState) (counts : Counts)
    (t : Task) :
    c.checkTask s state counts t = c.prepareTask s state counts t >>= c.conclude s state := by
  unfold checkTask prepareTask specified
  simp only [bind_assoc]
  refine bind_congr fun sub => bind_congr fun spec => ?_
  cases spec.targetOf? t with
  | none => rfl
  | some target =>
      simp only [assemble_eq, bind_assoc, pure_bind]
      rfl

/-- A check is its preparation, followed by everything that the model checker is asked. -/
theorem check_eq (c : Checker σ) (s : Schedule) (state : PlantState) :
    c.check s state = c.prepare s state >>= fun prepared =>
      match prepared with
      | none => pure .noActiveTask
      | some p => c.conclude s state p := by
  unfold check checkActive prepare
  simp only [bind_assoc]
  refine bind_congr fun path => ?_
  cases select s.ordered state.time c.options.keyUnit with
  | none => simp only [bind_assoc, pure_bind]
  | some selected =>
      obtain ⟨i, t, active⟩ := selected
      by_cases hmany : 1 < active
      · simp only [if_pos hmany, bind_assoc, pure_bind, checkTask_eq]
      · simp only [if_neg hmany, bind_assoc, pure_bind, checkTask_eq]

/-! ## What is prepared -/

section Ends

variable {w w' : World σ} {p : Prepared}

theorem ends_specified_ok {spec : DeadlineSpec} {target : Target}
    (hfits : t.window.FitsIn s.horizon)
    (h : Ends (specified s counts t : Check σ _) w (.ok (spec, target)) w') :
    counts.get t.unit t.name < maxCount ∧ target = counts.targetOf t ∧
      ∃ sub, sub.ordered = [t] ∧ DeadlineSpec.ofSchedule counts sub = .ok spec := by
  obtain ⟨sub, hsub, hordered⟩ := Schedule.single_eq_ok hfits
  unfold specified at h
  rw [hsub, ends_derived_bind] at h
  by_cases hcount : counts.get t.unit t.name < maxCount
  · obtain ⟨spec', hspec, htarget⟩ := DeadlineSpec.ofSchedule_of_ordered hordered hcount
    obtain ⟨reports, hnext⟩ := ends_specify_bind hspec h
    rw [htarget] at hnext
    obtain ⟨heq, -⟩ := ends_pure_ok.1 hnext
    obtain ⟨rfl, rfl⟩ := Prod.mk.inj heq
    exact ⟨hcount, rfl, sub, hordered, hspec⟩
  · have hfault := DeadlineSpec.ofSchedule_of_maxCount hordered hcount
    obtain ⟨hstop, -⟩ := ends_specify_bind_of_fault hfault h
    simp at hstop

theorem ends_prepareTask_ok (hfits : t.window.FitsIn s.horizon)
    (h : Ends (c.prepareTask s state counts t) w (.ok p) w') :
    p.counts = counts ∧ p.task = t ∧ p.target = counts.targetOf t ∧
      counts.get t.unit t.name < maxCount ∧
        ∃ sub spec m, sub.ordered = [t] ∧ DeadlineSpec.ofSchedule counts sub = .ok spec ∧
          Ends (combination c.combiner c.options.combine c.metadata c.dir spec state t) m
            (.ok p.model) w' := by
  obtain ⟨⟨spec, target⟩, m, hspecified, hrest⟩ := ends_bind_ok.1 h
  obtain ⟨model, m', hcombination, hlast⟩ := ends_bind_ok.1 hrest
  obtain ⟨rfl, rfl⟩ := ends_pure_ok.1 hlast
  obtain ⟨hcount, rfl, sub, hordered, hspec⟩ := ends_specified_ok hfits hspecified
  exact ⟨rfl, rfl, rfl, hcount, sub, spec, m, hordered, hspec, hcombination⟩

theorem ends_prepare_some (h : Ends (c.prepare s state) w (.ok (some p)) w') :
    ∃ i t active counts m, select s.ordered state.time c.options.keyUnit = some (i, t, active) ∧
      Counts.ofTasks (s.ordered.take i) = .ok counts ∧
        Ends (c.prepareTask s state counts t) m (.ok p) w' := by
  obtain ⟨path, m, -, h⟩ := ends_bind_ok.1 h
  cases hselect : select s.ordered state.time c.options.keyUnit with
  | none =>
      rw [hselect] at h
      dsimp only at h
      rw [ends_info_bind] at h
      exact absurd (ends_pure_ok.1 h).1 (by simp)
  | some selected =>
      obtain ⟨i, t, active⟩ := selected
      rw [hselect] at h
      obtain ⟨reports, h⟩ := ends_warn_if_bind h
      rw [ends_info_bind] at h
      rcases ends_ofFault_bind.1 h with ⟨counts, hcounts, h⟩ | ⟨f, -, hstop, -⟩
      · obtain ⟨prepared, m', hprepared, hlast⟩ := ends_bind_ok.1 h
        obtain ⟨heq, rfl⟩ := ends_pure_ok.1 hlast
        obtain rfl := Option.some.inj heq
        exact ⟨i, t, active, counts, _, rfl, hcounts, hprepared⟩
      · simp at hstop

/-- What is prepared is the task that is due first, with the target of its occurrence. -/
theorem selects_of_prepare (h : Ends (c.prepare s state) w (.ok (some p)) w') :
    ∃ earlier, s.Selects state.time c.options.keyUnit earlier p.task ∧
      Counts.ofTasks earlier = .ok p.counts ∧ p.target = Schedule.occurrence earlier p.task ∧
        ∃ m, Ends (c.prepareTask s state p.counts p.task) m (.ok p) w' := by
  obtain ⟨i, t, active, counts, m, hselect, hcounts, hprepared⟩ := ends_prepare_some h
  have hselects := selects_of_select hselect
  obtain ⟨hpcounts, hptask, htarget, -⟩ := ends_prepareTask_ok (s.fitsIn t hselects.mem) hprepared
  subst hpcounts hptask
  refine ⟨_, hselects, hcounts, ?_, m, hprepared⟩
  rw [htarget]
  exact Schedule.targetOf_eq_occurrence hcounts _

theorem admissible_of_prepare (h : Ends (c.prepare s state) w (.ok (some p)) w') :
    p.task ∈ s.units.tasks ∧ p.counts.get p.task.unit p.task.name < maxCount ∧
      p.target = p.counts.targetOf p.task := by
  obtain ⟨earlier, hselects, -, -, m, hprepared⟩ := selects_of_prepare h
  obtain ⟨-, -, htarget, hcount, -⟩ :=
    ends_prepareTask_ok (s.fitsIn p.task hselects.mem) hprepared
  exact ⟨hselects.mem, hcount, htarget⟩

/-- After its preparation, a check is decided by the model checker. -/
theorem ends_conclude_of_prepare {m : World σ} {r : Except (Stop CheckError) Verdict}
    (hprepared : Ends (c.prepare s state) w (.ok (some p)) m)
    (h : Ends (c.check s state) w r w') : Ends (c.conclude s state p) m r w' := by
  rw [check_eq] at h
  rcases ends_bind.1 h with ⟨prepared, m', hprepared', hrest⟩ | ⟨stop, -, hstopped⟩
  · obtain ⟨heq, rfl⟩ := hprepared'.unique hprepared
    obtain rfl := Except.ok.inj heq
    exact hrest
  · exact absurd (hstopped.unique hprepared).1 (by simp)

end Ends

end Checker

/-! ## What a preparation cannot do -/

namespace Check

/-- No run of the action has an exchange with the model checker. -/
def Silent {α : Type} (act : Check σ α) : Prop :=
  ∀ w r w', Ends act w r w' → w'.exchanges = w.exchanges

/-- No run of the action has an exchange with the model checker or ends in a fault. -/
structure Harmless {α : Type} (act : Check σ α) : Prop where
  silent : Silent act
  faultless : ∀ w f w', ¬ Ends act w (.error (.fault f)) w'

section Harmless

variable {α β : Type}

theorem Silent.bind {act : Check σ α} {f : α → Check σ β} (hact : Silent act)
    (hf : ∀ a, Silent (f a)) : Silent (act >>= f) := by
  intro w r w' h
  rcases ends_bind.1 h with ⟨a, m, hfirst, hrest⟩ | ⟨stop, -, hfirst⟩
  · exact (hf a m r w' hrest).trans (hact w _ m hfirst)
  · exact hact w _ w' hfirst

theorem Harmless.bind {act : Check σ α} {f : α → Check σ β} (hact : Harmless act)
    (hf : ∀ a, Harmless (f a)) : Harmless (act >>= f) := by
  refine ⟨hact.silent.bind fun a => (hf a).silent, ?_⟩
  intro w fault w' h
  rcases ends_bind_error.1 h with ⟨a, m, -, hrest⟩ | hfirst
  · exact (hf a).faultless m fault w' hrest
  · exact hact.faultless w fault w' hfirst

theorem harmless_pure (a : α) : Harmless (pure a : Check σ α) := by
  refine ⟨fun w r w' h => ?_, fun w f w' h => ?_⟩
  · rw [(ends_pure.1 h).2]
  · exact absurd (ends_pure.1 h).1 (by simp)

theorem harmless_fail (e : CheckError) : Harmless (Action.fail e : Check σ α) := by
  refine ⟨fun w r w' h => ?_, fun w f w' h => ?_⟩
  · rw [(ends_fail.1 h).2]
  · exact absurd (ends_fail.1 h).1 (by simp)

theorem harmless_report (level : Level) (text : String) :
    Harmless (report level text : Check σ Unit) := by
  refine ⟨fun w r w' h => ?_, fun w f w' h => ?_⟩
  · rw [(ends_modify.1 h).2]
  · exact absurd (ends_modify.1 h).1 (by simp)

theorem harmless_warnings (texts : List String) :
    Harmless (texts.forM warn : Check σ PUnit) := by
  induction texts with
  | nil => exact harmless_pure PUnit.unit
  | cons text texts ih => exact (harmless_report .warn text).bind fun _ => ih

theorem harmless_write (dir : String) (a : Artifact) (text : String) :
    Harmless (Artifact.write dir a text : Check σ String) := by
  refine ⟨fun w r w' h => ?_, fun w f w' h => ?_⟩
  · rcases ends_write h with ⟨tree, -, -, rfl⟩ | ⟨e, -, rfl⟩
    · rfl
    · rfl
  · obtain ⟨⟨e, he⟩, -⟩ := ends_write_error h
    simp at he

theorem harmless_combined (act : Tree → σ → Combination σ) : Harmless (combined act) := by
  refine ⟨fun w r w' h => ?_, fun w f w' h => ?_⟩
  · rw [(ends_combined h).2]
    rfl
  · have hresult := (ends_combined h).1
    cases hact : (act w.tree w.solver).result <;> simp [hact, Except.mapError] at hresult

theorem harmless_metadataFiles (metadata : Option Metadata) (t : Task) :
    Harmless (metadataFiles metadata t : Check σ (List String)) := by
  cases metadata with
  | none => exact harmless_pure _
  | some md => exact (harmless_warnings _).bind fun _ => harmless_pure _

theorem harmless_combination (combiner : Combiner σ) (options : CombineOptions)
    (metadata : Option Metadata) (dir : String) (spec : DeadlineSpec) (state : PlantState)
    (t : Task) : Harmless (combination combiner options metadata dir spec state t) := by
  refine (harmless_write _ _ _).bind fun _ => (harmless_write _ _ _).bind fun _ => ?_
  exact (harmless_metadataFiles _ _).bind fun _ => harmless_combined _

theorem silent_ofFault (x : Except Fault α) : Silent (Action.ofFault x : Check σ α) := by
  cases x with
  | ok a => exact (harmless_pure a).silent
  | error f =>
      intro w r w' h
      rw [(ends_throw.1 h).2]

theorem silent_specified (s : Schedule) (counts : Counts) (t : Task) :
    Silent (specified s counts t : Check σ (DeadlineSpec × Target)) := by
  refine Silent.bind ?_ fun sub => Silent.bind ?_ fun spec => ?_
  · cases s.single t with
    | ok sub => exact (harmless_pure sub).silent
    | error e => exact (harmless_fail _).silent
  · exact (silent_ofFault _).bind fun _ =>
      ((harmless_warnings _).bind fun _ => harmless_pure _).silent
  · cases spec.targetOf? t with
    | none => exact (harmless_fail _).silent
    | some target => exact (harmless_pure _).silent

end Harmless

end Check

namespace Checker

theorem silent_prepareTask (c : Checker σ) (s : Schedule) (state : PlantState) (counts : Counts)
    (t : Task) : Silent (c.prepareTask s state counts t) := by
  refine (silent_specified _ _ _).bind fun specified => ?_
  exact ((harmless_combination _ _ _ _ _ _ _).bind fun _ => harmless_pure _).silent

/-- A check asks the model checker nothing before its model is combined. -/
theorem silent_prepare (c : Checker σ) (s : Schedule) (state : PlantState) :
    Silent (c.prepare s state) := by
  refine (harmless_write _ _ _).silent.bind fun _ => ?_
  cases select s.ordered state.time c.options.keyUnit with
  | none => exact ((harmless_report _ _).bind fun _ => harmless_pure _).silent
  | some selected =>
      obtain ⟨i, t, active⟩ := selected
      have hrest : Silent (do
          Check.info ("Checking task " ++ t.text ++ " at time " ++ toString state.time)
          let counts ← Action.ofFault (Counts.ofTasks (s.ordered.take i))
          let prepared ← c.prepareTask s state counts t
          return some prepared : Check σ (Option Prepared)) := by
        refine (harmless_report _ _).silent.bind fun _ => (silent_ofFault _).bind fun counts => ?_
        exact (silent_prepareTask _ _ _ _ _).bind fun _ => (harmless_pure _).silent
      dsimp only
      split
      · exact (harmless_report _ _).silent.bind fun _ => hrest
      · exact hrest

end Checker

end Punctual
