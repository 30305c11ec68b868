import Punctual.Proofs.Check.Agreement

/-!
# Delays and the horizon

A check declares a task infeasible with a delay from one of three sources, and only one of them
looks at the horizon. Full model checking has asked about the delayed deadline, so it lies within
the horizon. The timeout heuristic takes the earliest completion that was reported, wherever it
lies, and a delay that is not searched for is one time step even if the deadline is the end of the
horizon. `delay_of_infeasible` says which delays lead to a deadline that the schedule accepts.
-/

namespace Punctual

variable {σ : Type}

namespace Schedule

variable {s sub : Schedule} {t : Task} {deadline : Time}

/-- The schedule accepts exactly the later deadlines of a task that lie within the horizon. -/
theorem exists_relaxed_iff (ht : t ∈ s.units.tasks) (hlate : t.deadline ≤ deadline) :
    (∃ sub, s.relaxed t deadline = .ok sub) ↔ deadline ≤ s.horizon.closes := by
  constructor
  · rintro ⟨sub, hsub⟩
    obtain ⟨hhorizon, hunits⟩ := ofUnits_eq_ok_iff.1 hsub
    have hfits : (t.withDeadline deadline).window.FitsIn sub.horizon :=
      sub.fitsIn _ (hunits ▸ List.mem_cons_self)
    rw [hhorizon] at hfits
    exact hfits.2
  · intro hhorizon
    obtain ⟨sub, hsub, -⟩ := relaxed_eq_ok ht hlate hhorizon
    exact ⟨sub, hsub⟩

end Schedule

namespace Checker

open Check

/-! ## Grounds of a delay -/

/-- What the exchanges of a check say in favour of the delay of an infeasible task. -/
inductive DelayGround (c : Checker σ) (horizonEnd : Time) (g : Target) (t : Task)
    (xs : List Exchange) : Option Time → InfeasibilityProof → Prop
  /-- The first deadline after an infeasible one is feasible. -/
  | bounded {first : Time} {path : String} (hlate : t.deadline < first)
      (hwithin : first ≤ horizonEnd) (hinfeasible : Answered xs g (first - 1) none)
      (hfeasible : Answered xs g first (some path)) :
      DelayGround c horizonEnd g t xs (some (first - t.deadline)) .fullMc
  /-- The end of the horizon is infeasible, which was recorded. -/
  | hopeless (hinfeasible : Answered xs g horizonEnd none)
      (hfits : Time.Fits (horizonEnd - t.deadline + 1)) :
      DelayGround c horizonEnd g t xs none .fullMc
  /-- The timeout heuristic is trusted, and the earliest completion that was reported lies after
  the deadline. -/
  | reported {first : Time} (htrust : c.options.trustHeuristic = true) (hlate : t.deadline < first)
      (hleast : (completions xs).min? = some first) :
      DelayGround c horizonEnd g t xs (some (first - t.deadline)) .heuristic
  /-- The deadline is infeasible, and the delay is not searched for. -/
  | assumed (hassumed : c.options.debugArgs.contains .simpleDelay)
      (hinfeasible : Answered xs g t.deadline none) :
      DelayGround c horizonEnd g t xs (some 1) .assumed

section Grounds

variable {c : Checker σ} {r : Recorder} {g : Target} {t : Task} {xs : List Exchange}
  {es : List Event} {delay : Option Time} {proof : InfeasibilityProof} {horizonEnd n : Time}

/-- A delay leads to a later deadline. Whether this is in the horizon depends on its source. -/
theorem DelayGround.range (h : DelayGround c horizonEnd g t xs (some n) proof) :
    1 ≤ n ∧ (t.deadline + n ≤ horizonEnd ↔
      proof = .fullMc ∨ proof = .assumed ∧ t.deadline < horizonEnd ∨
        proof = .heuristic ∧ ∃ time ∈ completions xs, time ≤ horizonEnd) := by
  cases h with
  | @bounded first path hlate hwithin _ _ =>
      rw [Int.add_comm, Int.sub_add_cancel]
      exact ⟨Int.sub_pos_of_lt hlate, by simpa using hwithin⟩
  | @reported first htrust hlate hleast =>
      obtain ⟨hmem, hall⟩ := List.min?_eq_some_iff.1 hleast
      have hwithin : first ≤ horizonEnd ↔ ∃ time ∈ completions xs, time ≤ horizonEnd := by
        constructor
        · intro hle
          exact ⟨first, hmem, hle⟩
        · rintro ⟨time, htime, hle⟩
          exact Int.le_trans (hall time htime) hle
      rw [Int.add_comm, Int.sub_add_cancel]
      exact ⟨Int.sub_pos_of_lt hlate, by simpa using hwithin⟩
  | assumed hassumed hinfeasible =>
      rw [Int.add_one_le_iff]
      exact ⟨Int.le_refl 1, by simp⟩

/-- The delay of a session rests on its answers. -/
theorem Decided.delayGround (h : Decided c r g t es (.ok (.infeasible t delay proof)))
    (htask : r.task = t) (hwithin : t.deadline ≤ r.horizon.closes)
    (hxs : ∀ x ∈ Event.exchanges es, x ∈ xs) : DelayGround c r.horizon.closes g t xs delay proof := by
  cases h with
  | assumed hassumed hrecorded hdelay =>
      have heq := Recorder.eq_of_delayAfter (Int.le_refl t.deadline) hdelay
      rw [Int.add_comm, Int.add_sub_cancel] at heq
      subst heq
      exact .assumed hassumed (hxs _ (hrecorded.answered List.mem_cons_self))
  | @delayed _ asked b delay hnarrowing hupper hdelay =>
      have hin := hnarrowing.narrows.within ⟨hwithin, by rintro u ⟨⟩⟩
      have hinfeasible := hnarrowing.answered_lower
      obtain ⟨path, hfeasible⟩ := hnarrowing.answered_upper hupper
      obtain rfl := Recorder.eq_of_delayAfter hnarrowing.narrows.lower_le hdelay
      refine .bounded (Int.lt_add_one_of_le hnarrowing.narrows.lower_le) (hin.2 _ hupper).2 ?_
        (hxs _ hfeasible)
      rw [Int.add_sub_cancel]
      exact hxs _ hinfeasible
  | @hopeless _ asked b hnarrowing hlower =>
      have hinfeasible := hnarrowing.answered_lower
      obtain ⟨delay, hdelay⟩ := hnarrowing.exists_delay
      rw [htask, hlower] at hdelay
      rw [hlower] at hinfeasible
      exact .hopeless (hxs _ hinfeasible) ((Recorder.delayAfter_eq_ok_iff hwithin).1 hdelay).2

/-- After a search that missed the deadline, the delay rests on what the search has found or on a
session. -/
theorem Inconclusive.delayGround {found : BmcSearch} {modelPath : String}
    (h : Inconclusive c r g t found modelPath es (.ok (.infeasible t delay proof)))
    (hpoint : BmcSearch.IsPoint c.options.bmc g found)
    (hfound : found.finalTime = (completions xs).min?)
    (hmissed : found.meets t.deadline = false) (htask : r.task = t)
    (hwithin : t.deadline ≤ r.horizon.closes) :
    DelayGround c r.horizon.closes g t (xs ++ Event.exchanges es) delay proof := by
  cases h with
  | @heuristic time lower delay htime hlower hdelay =>
      obtain ⟨htrust, hfinal⟩ := (heuristicTime_eq_some_iff hpoint).1 htime
      have hleast := hfound.symm.trans hfinal
      have hlate := late_of_missed hfound hmissed (List.min?_mem hleast)
      obtain ⟨rfl, -⟩ := Time.sub_eq_ok_iff.1 hlower
      have heq := Recorder.eq_of_delayAfter (Int.le_sub_one_of_lt hlate) hdelay
      rw [Int.sub_add_cancel] at heq
      subst heq
      rw [Event.exchanges_wrote, Event.exchanges_nil, List.append_nil]
      exact .reported htrust hlate hleast
  | @decided es' _ htime hfallback hdecided =>
      refine hdecided.delayGround htask hwithin ?_
      intro x hx
      simp [hx]

theorem TaskCourse.delayGround (h : TaskCourse c r g t es (.ok (.infeasible t delay proof)))
    (hdeadline : g.deadline = t.deadline) (htask : r.task = t)
    (hwithin : t.deadline ≤ r.horizon.closes) :
    DelayGround c r.horizon.closes g t (Event.exchanges es) delay proof := by
  cases h with
  | @inconclusive es es₁ es₂ model modelPath found _ hprep hsearch hmissed hinconclusive =>
      have hpoint := hsearch.isPoint_of_missed (by rwa [hdeadline])
      simp only [Event.exchanges_append, exchanges_of_preparations hprep, List.nil_append]
      exact hinconclusive.delayGround hpoint hsearch.finalTime_eq hmissed htask hwithin

end Grounds

/-! ## Delays of checks -/

section Check

variable {c : Checker σ} {s : Schedule} {state : PlantState} {t : Task} {delay : Option Time}
  {proof : InfeasibilityProof} {w w' : World σ}

/-- A check that declares a task infeasible with a delay names a later deadline. It is one that the
schedule accepts if it was asked about, if it was assumed and the deadline of the task is not the
end of the horizon, or if it is a completion that was reported within the horizon. Without a delay
the end of the horizon was answered as infeasible. -/
theorem delay_of_infeasible
    (h : Ends (c.check s state) w (.ok (.infeasible t delay proof)) w') :
    ∃ xs earlier, w'.exchanges = w.exchanges ++ xs ∧
      s.Selects state.time c.options.keyUnit earlier t ∧
      DelayGround c s.horizon.closes (Schedule.occurrence earlier t) t xs delay proof ∧
      (∀ n ∈ delay, 1 ≤ n ∧
        ((∃ sub, s.relaxed t (t.deadline + n) = .ok sub) ↔ t.deadline + n ≤ s.horizon.closes) ∧
        (t.deadline + n ≤ s.horizon.closes ↔
          proof = .fullMc ∨ proof = .assumed ∧ t.deadline < s.horizon.closes ∨
            proof = .heuristic ∧ ∃ time ∈ completions xs, time ≤ s.horizon.closes)) ∧
      (delay = none → proof = .fullMc ∧
        Answered xs (Schedule.occurrence earlier t) s.horizon.closes none) := by
  cases check_course h with
  | @marked tree es _ _ hstore hcourse hcheck =>
      cases hcheck with
      | @task earlier t' es' result hselects htask =>
          obtain ⟨htask?, -, -⟩ := htask.justified rfl
          obtain rfl : t = t' := Option.some.inj htask?
          have hwithin : t.deadline ≤ s.horizon.closes := (s.fitsIn t hselects.mem).2
          have hground := htask.delayGround rfl rfl hwithin
          refine ⟨Event.exchanges es, earlier, hcourse.exchanges_eq, hselects, hground, ?_, ?_⟩
          · rintro n ⟨⟩
            obtain ⟨hpos, hrange⟩ := hground.range
            have hlate : t.deadline ≤ t.deadline + n := by
              dsimp only [Time] at *
              omega
            exact ⟨hpos, Schedule.exists_relaxed_iff hselects.mem hlate, hrange⟩
          · rintro rfl
            cases hground with
            | hopeless hinfeasible hfits => exact ⟨rfl, hinfeasible⟩

end Check

/-- A schedule whose horizon ends with the deadline of its only task. -/
def tight : Schedule :=
  ⟨⟨0, 5⟩, [("u", [⟨"n", ⟨0, 5⟩⟩])], by decide, by decide⟩

/-- The check that does not search for the delay. -/
def hasty (c : Checker σ) : Checker σ :=
  { c with options := { c.options with debugArgs := [.simpleDelay] } }

/-- Both by the heuristic and without a search, the delay may lead out of the horizon. -/
theorem delay_of_infeasible_tight :
    ∃ w₁ w₂,
      Ends ((sevenChecker 4.0).trusting.check tight ⟨0, .null, []⟩) ⟨.empty, [], (), []⟩
        (.ok (.infeasible loneTask (some 2) .heuristic)) w₁ ∧
      Ends ((sevenChecker 4.0).hasty.check tight ⟨0, .null, []⟩) ⟨.empty, [], (), []⟩
        (.ok (.infeasible loneTask (some 1) .assumed)) w₂ ∧
      (¬ ∃ sub, tight.relaxed loneTask 7 = .ok sub) ∧
      ¬ ∃ sub, tight.relaxed loneTask 6 = .ok sub := by
  obtain ⟨v₁, w₁, h₁, hv₁⟩ := exists_ends_ok_of_endsIn
    ((sevenChecker 4.0).trusting.check tight ⟨0, .null, []⟩) ⟨.empty, [], (), []⟩
    (fun v => v = .infeasible loneTask (some 2) .heuristic) (by decide +kernel)
  obtain ⟨v₂, w₂, h₂, hv₂⟩ := exists_ends_ok_of_endsIn
    ((sevenChecker 4.0).hasty.check tight ⟨0, .null, []⟩) ⟨.empty, [], (), []⟩
    (fun v => v = .infeasible loneTask (some 1) .assumed) (by decide +kernel)
  obtain rfl := of_decide_eq_true hv₁
  obtain rfl := of_decide_eq_true hv₂
  obtain ⟨xs₁, earlier₁, -, -, -, hdelay₁, -⟩ := delay_of_infeasible h₁
  obtain ⟨xs₂, earlier₂, -, -, -, hdelay₂, -⟩ := delay_of_infeasible h₂
  obtain ⟨-, hrelaxed₁, -⟩ := hdelay₁ 2 rfl
  obtain ⟨-, hrelaxed₂, -⟩ := hdelay₂ 1 rfl
  refine ⟨w₁, w₂, h₁, h₂, fun hsub => ?_, fun hsub => ?_⟩
  · exact absurd (hrelaxed₁.1 hsub) (by decide)
  · exact absurd (hrelaxed₂.1 hsub) (by decide)

end Checker

end Punctual
