import Punctual.Proofs.Check.Reachability
import Punctual.Solver.Scripted

/-!
# Certificates of exact feasibility

The result of a session is certified by answers that the model checker gave in this very session, so
that it can be checked against them even if the model checker contradicts itself. If its answers do
have a threshold, the result names it (`Certified.exact`).

The session has such a result whenever neither the model checker nor the recipient of infeasible
deadlines fails (`reachability_certified`). The one other way to break off is a task whose next
occurrence has no number (`reachability_of_maxCount`).
-/

namespace Punctual.Check

variable {σ : Type} {backend : Backend σ} {s : Schedule} {counts : Counts} {t : Task}
  {onInfeasible : Time → Check σ Unit} {w w' : World σ}

/-- Among the exchanges the question about a deadline got an answer. -/
def Answered (asked : List Exchange) (g : Target) (deadline : Time) (path : Option String) :
    Prop :=
  .query (g.reachedBy deadline) (.ok path) ∈ asked

/-- The answers about a target depend on the deadline only: there is a path from `first` on. -/
def Threshold (backend : Backend σ) (g : Target) (first : Time) : Prop :=
  ∀ deadline state path state',
    Ends (backend.getPath (g.reachedBy deadline)) state (.ok path) state' →
      (path.isSome ↔ first ≤ deadline)

/-- A result and the answers that certify it. -/
inductive Certified (horizonEnd deadline : Time) (g : Target) (asked : List Exchange) :
    Reachability → Prop
  | feasible {path : String} (hasked : Answered asked g deadline (some path)) :
      Certified horizonEnd deadline g asked (.feasible path)
  /-- The deadlines up to `lower` are infeasible, and the next one is feasible. -/
  | delayed {lower upper : Time} {path : String} (hlower : deadline ≤ lower)
      (hupper : upper ≤ horizonEnd) (hadjacent : upper = lower + 1)
      (hinfeasible : Answered asked g lower none)
      (hfeasible : Answered asked g upper (some path)) :
      Certified horizonEnd deadline g asked (.infeasible ⟨deadline, lower, some upper⟩)
  /-- Even the end of the horizon is infeasible. -/
  | hopeless (hinfeasible : Answered asked g horizonEnd none) :
      Certified horizonEnd deadline g asked (.infeasible ⟨deadline, horizonEnd, none⟩)

/-- The model checker or the recipient of infeasible deadlines fails. -/
inductive Fails (backend : Backend σ) (g : Target) (onInfeasible : Time → Check σ Unit) :
    Stop CheckError → Prop
  | query {deadline : Time} {e : SolverError} {state state' : Tree × σ}
      (hfails : Ends (backend.getPath (g.reachedBy deadline)) state (.error e) state') :
      Fails backend g onInfeasible (.error (.solver e))
  | recipient {deadline : Time} {stop : Stop CheckError} {m m' : World σ}
      (hfails : Ends (onInfeasible deadline) m (.error stop) m') :
      Fails backend g onInfeasible stop

/-- What is done with infeasible deadlines does not talk to the model checker. -/
def Quiet (onInfeasible : Time → Check σ Unit) : Prop :=
  ∀ deadline w r w', Ends (onInfeasible deadline) w r w' → w'.exchanges = w.exchanges

/-- The result names the threshold of the answers. -/
structure Names (horizonEnd deadline first : Time) (found : Reachability) : Prop where
  feasible_iff : (∃ path, found = .feasible path) ↔ first ≤ deadline
  delayed_iff : found = .infeasible ⟨deadline, first - 1, some first⟩ ↔
    deadline < first ∧ first ≤ horizonEnd
  hopeless_iff : found = .infeasible ⟨deadline, horizonEnd, none⟩ ↔ horizonEnd < first
  delay_eq : deadline < first → first ≤ horizonEnd →
    DelayBounds.delay ⟨deadline, first - 1, some first⟩ = .ok (first - deadline)

/-! ## Exchanges of a session -/

/-- All questions among the exchanges were put to the model checker. -/
def Backed (backend : Backend σ) (asked : List Exchange) : Prop :=
  ∀ target answer, .query target answer ∈ asked →
    ∃ state state', Ends (backend.getPath target) state answer state'

theorem Backed.append {asked more : List Exchange} (h : Backed backend asked)
    (h' : Backed backend more) : Backed backend (asked ++ more) := by
  intro target answer hmem
  rcases List.mem_append.1 hmem with hleft | hright
  · exact h target answer hleft
  · exact h' target answer hright

/-- The questions of a course were put to the model checker. -/
theorem backed_of_course {combiner : Combiner σ} {dir : String} {es : List Event}
    (h : Course backend combiner dir w es w') : Backed backend (Event.exchanges es) := by
  intro target answer hmem
  exact h.holds_of_mem hmem

section Exchanges

variable {combiner : Combiner σ} {dir : String} {g : Target} {deadline : Time}

/-- A question leaves one exchange. -/
theorem exchanges_of_queryEvent {answer : Except SolverError (Option String)}
    (h : Course backend combiner dir w [queryEvent g deadline answer] w') :
    w'.exchanges = w.exchanges ++ [.query (g.reachedBy deadline) answer] ∧
      Backed backend [.query (g.reachedBy deadline) answer] := by
  exact ⟨h.exchanges_eq, backed_of_course h⟩

/-- One more question leaves one more exchange with its answer. -/
theorem exists_answered_cons {asked : Answers} {xs : List Exchange} (path : Option String)
    (h : ∀ p ∈ asked, ∃ path, Answered xs g p.1 path ∧ path.isSome = p.2) :
    ∀ p ∈ (deadline, path.isSome) :: asked,
      ∃ path', Answered (.query (g.reachedBy deadline) (.ok path) :: xs) g p.1 path' ∧
        path'.isSome = p.2 := by
  intro p hp
  rcases List.mem_cons.1 hp with rfl | htail
  · exact ⟨path, List.mem_cons_self, rfl⟩
  · obtain ⟨path', hpath, hsome⟩ := h p htail
    exact ⟨path', List.mem_cons_of_mem _ hpath, hsome⟩

/-- Questions one after another leave exchanges with their answers. -/
theorem Probing.exchanges {asked : Answers} (hquiet : Quiet onInfeasible)
    (h : Probing backend combiner dir g onInfeasible w asked w') :
    ∃ xs, w'.exchanges = w.exchanges ++ xs ∧ Backed backend xs ∧
      ∀ p ∈ asked, ∃ path, Answered xs g p.1 path ∧ path.isSome = p.2 := by
  induction h with
  | nil hsilent =>
      exact ⟨[], hsilent.exchanges_eq, fun _ _ hmem => by simp at hmem, by simp⟩
  | @feasible _ _ _ _ path _ hasked _ ih =>
      obtain ⟨hfirst, hbacked⟩ := exchanges_of_queryEvent hasked
      obtain ⟨xs, hrest, hbacked', hanswers⟩ := ih
      exact ⟨_, by rw [hrest, hfirst, List.append_assoc], hbacked.append hbacked',
        exists_answered_cons (some path) hanswers⟩
  | infeasible hasked hheard _ ih =>
      obtain ⟨hfirst, hbacked⟩ := exchanges_of_queryEvent hasked
      obtain ⟨xs, hrest, hbacked', hanswers⟩ := ih
      exact ⟨_, by rw [hrest, hquiet _ _ _ _ hheard, hfirst, List.append_assoc],
        hbacked.append hbacked', exists_answered_cons none hanswers⟩

/-- A question that breaks off leaves an exchange, and somebody failed. -/
theorem Breaks.fails {stop : Stop CheckError} (hquiet : Quiet onInfeasible)
    (h : Breaks backend combiner dir g onInfeasible deadline w stop w') :
    (∃ xs, w'.exchanges = w.exchanges ++ xs) ∧ Fails backend g onInfeasible stop := by
  cases h with
  | unanswered hasked =>
      obtain ⟨hfirst, hbacked⟩ := exchanges_of_queryEvent hasked
      obtain ⟨state, state', hends⟩ := hbacked _ _ List.mem_cons_self
      exact ⟨⟨_, hfirst⟩, .query hends⟩
  | unheard hasked hheard =>
      obtain ⟨hfirst, -⟩ := exchanges_of_queryEvent hasked
      exact ⟨⟨_, (hquiet _ _ _ _ hheard).trans hfirst⟩, .recipient hheard⟩

end Exchanges

/-! ## Certified results -/

section Result

variable {horizonEnd deadline first : Time} {g : Target} {asked : List Exchange}
  {found : Reachability}

theorem Answered.first_le_iff {path : Option String} (h : Answered asked g deadline path)
    (hbacked : Backed backend asked) (hthreshold : Threshold backend g first) :
    path.isSome ↔ first ≤ deadline := by
  obtain ⟨state, state', hends⟩ := hbacked _ _ h
  exact hthreshold _ _ _ _ hends

/-- The gap between two deadlines of the search is in range. -/
theorem fits_gap {lower upper : Time} (hlower : deadline ≤ lower) (hlt : lower < upper)
    (hupper : upper ≤ horizonEnd) (hgap : Time.Fits (horizonEnd - deadline + 1)) :
    Time.Fits (upper - lower) := by
  refine hgap.of_le (Int.sub_nonneg.2 (Int.le_of_lt hlt)) ?_
  dsimp only [Time] at *
  omega

theorem fits_delay {lower : Time} (hlate : deadline ≤ lower) (hhorizon : lower ≤ horizonEnd)
    (hgap : Time.Fits (horizonEnd - deadline + 1)) : Time.Fits (lower - deadline + 1) :=
  hgap.of_le (Int.add_nonneg (Int.sub_nonneg.2 hlate) (by decide))
    (Int.add_le_add_right (Int.sub_le_sub_right hhorizon deadline) 1)

/-- The delay up to a deadline within the horizon is in range. -/
theorem delay_of_adjacent (hdeadline : deadline < first) (hhorizon : first ≤ horizonEnd)
    (hgap : Time.Fits (horizonEnd - deadline + 1)) :
    DelayBounds.delay ⟨deadline, first - 1, some first⟩ = .ok (first - deadline) := by
  have hsub : Time.sub (first - 1) deadline = .ok (first - 1 - deadline) := by
    refine Time.sub_eq_ok_iff.2 ⟨rfl, hgap.of_le ?_ ?_⟩
    · exact Int.sub_nonneg.2 (Int.le_sub_one_of_lt hdeadline)
    · dsimp only [Time] at *
      omega
  have hadd : first - deadline = first - 1 - deadline + 1 := by
    dsimp only [Time] at *
    omega
  refine except_bind_eq_ok.2 ⟨_, hsub, Time.add_eq_ok_iff.2 ⟨hadd, ?_⟩⟩
  exact fits_delay (Int.le_sub_one_of_lt hdeadline)
    (Int.le_trans (Int.sub_le_self first (by decide)) hhorizon) hgap

/-- Certified results name the threshold of the answers, if there is one. -/
theorem Certified.names (h : Certified horizonEnd deadline g asked found)
    (hhorizon : deadline ≤ horizonEnd) (hgap : Time.Fits (horizonEnd - deadline + 1))
    (hbacked : Backed backend asked) (hthreshold : Threshold backend g first) :
    Names horizonEnd deadline first found := by
  have hdelay (hdeadline : deadline < first) (hfirst : first ≤ horizonEnd) :=
    delay_of_adjacent hdeadline hfirst hgap
  cases h with
  | feasible hasked =>
      have hle := (hasked.first_le_iff hbacked hthreshold).1 rfl
      have hbefore := Int.not_lt.2 hle
      exact ⟨iff_of_true ⟨_, rfl⟩ hle, iff_of_false nofun fun h => hbefore h.1,
        iff_of_false nofun (Int.not_lt.2 (Int.le_trans hle hhorizon)), hdelay⟩
  | @delayed lower upper path hlower hupper hadjacent hinfeasible hfeasible =>
      have hle := (hfeasible.first_le_iff hbacked hthreshold).1 rfl
      have hlt : lower < first := Int.not_le.1 fun hle' => by
        simpa using (hinfeasible.first_le_iff hbacked hthreshold).2 hle'
      obtain rfl : upper = first := by
        rw [hadjacent] at hle ⊢
        exact Int.le_antisymm hlt hle
      obtain rfl : lower = upper - 1 := by
        rw [hadjacent]
        exact (Int.add_sub_cancel lower 1).symm
      have hafter := Int.lt_of_le_of_lt hlower hlt
      exact ⟨iff_of_false nofun (Int.not_le.2 hafter), iff_of_true rfl ⟨hafter, hupper⟩,
        iff_of_false nofun (Int.not_lt.2 hupper), hdelay⟩
  | hopeless hinfeasible =>
      have hlt : horizonEnd < first := Int.not_le.1 fun hle' => by
        simpa using (hinfeasible.first_le_iff hbacked hthreshold).2 hle'
      have hafter := Int.lt_of_le_of_lt hhorizon hlt
      exact ⟨iff_of_false nofun (Int.not_le.2 hafter),
        iff_of_false nofun fun h => Int.not_le.2 hlt h.2, iff_of_true rfl hlt, hdelay⟩

/-- What a search has found and was answered certifies its result. -/
theorem certified_of_narrows {answers : Answers} {b : DelayBounds}
    (hwithin : deadline ≤ horizonEnd)
    (hnarrows : Narrows horizonEnd (.ofDeadline deadline) answers b)
    (hfound : b.upper = some (b.lower + 1) ∨ b.upper = none ∧ b.lower = horizonEnd)
    (hanswers : ∀ p ∈ (deadline, false) :: answers,
      ∃ path, Answered asked g p.1 path ∧ path.isSome = p.2) :
    Certified horizonEnd deadline g asked (.infeasible b) := by
  have hlower : Answered asked g b.lower none := by
    obtain ⟨path, hasked, hnone⟩ := hanswers _ hnarrows.lower_mem
    obtain rfl : path = none := by simpa using hnone
    exact hasked
  have hdeadline : b.deadline = deadline := hnarrows.deadline_eq
  have hle : deadline ≤ b.lower := hnarrows.lower_le
  have hin := hnarrows.within ⟨hwithin, by rintro u ⟨⟩⟩
  obtain ⟨deadline', lower, upper⟩ := b
  dsimp only at hdeadline hfound hle hlower
  subst hdeadline
  rcases hfound with rfl | ⟨rfl, rfl⟩
  · rcases hnarrows.upper_eq_or_mem with hnone | ⟨u, hu, hmem⟩
    · simp [DelayBounds.ofDeadline] at hnone
    · obtain rfl := Option.some.inj hu
      obtain ⟨path, hasked, hsome⟩ := hanswers _ (List.mem_cons_of_mem _ hmem)
      obtain ⟨path', rfl⟩ := Option.isSome_iff_exists.1 hsome
      exact .delayed hle (hin.2 _ rfl).2 rfl hlower hasked
  · exact .hopeless hlower

end Result

/-- A schedule of one task. -/
def lone : Schedule :=
  ⟨⟨0, 10⟩, [("u", [⟨"n", ⟨0, 5⟩⟩])], by decide, by decide⟩

/-- Its task. -/
def loneTask : Task :=
  ⟨"u", "n", ⟨0, 5⟩⟩

/-- A session of a task ends with a result that its own answers certify, unless the model checker or
the recipient of infeasible deadlines fails. -/
theorem reachability_certified {r : Except (Stop CheckError) Reachability}
    (ht : t ∈ s.units.tasks) (hcount : counts.get t.unit t.name < maxCount)
    (hgap : Time.Fits (s.horizon.closes - t.deadline + 1)) (hquiet : Quiet onInfeasible)
    (h : Ends (reachability backend s counts t true onInfeasible) w r w') :
    ∃ asked, w'.exchanges = w.exchanges ++ asked ∧
      ((∃ found, r = .ok found ∧
          Certified s.horizon.closes t.deadline (counts.targetOf t) asked found ∧
          ∀ first, Threshold backend (counts.targetOf t) first →
            Names s.horizon.closes t.deadline first found) ∨
        ∃ stop, r = .error stop ∧ Fails backend (counts.targetOf t) onInfeasible stop) := by
  have hhorizon : t.deadline ≤ s.horizon.closes := (s.fitsIn t ht).2
  cases reachability_course Combiner.builtin "" ht hcount h with
  | undecided hbreaks =>
      obtain ⟨⟨xs, hxs⟩, hfails⟩ := hbreaks.fails hquiet
      exact ⟨xs, hxs, .inr ⟨_, rfl, hfails⟩⟩
  | @feasible path _ hasked =>
      obtain ⟨hxs, hbacked⟩ := exchanges_of_queryEvent hasked
      have hcertified : Certified s.horizon.closes t.deadline (counts.targetOf t)
          [.query ((counts.targetOf t).reachedBy t.deadline) (.ok (some path))]
          (.feasible path) :=
        .feasible List.mem_cons_self
      exact ⟨_, hxs, .inl ⟨_, rfl, hcertified,
        fun first hfirst => hcertified.names hhorizon hgap hbacked hfirst⟩⟩
  | assumed hassumed => simp at hassumed
  | searched hsearch hprobing hnarrows hfound =>
      obtain ⟨xs, hxs, hbacked, hanswers⟩ := hprobing.exchanges hquiet
      have hcertified := certified_of_narrows hhorizon hnarrows hfound hanswers
      exact ⟨xs, hxs, .inl ⟨_, rfl, hcertified,
        fun first hfirst => hcertified.names hhorizon hgap hbacked hfirst⟩⟩
  | broken hsearch hprobing hnarrows hbracket hbreaks =>
      obtain ⟨xs, hxs, -, -⟩ := hprobing.exchanges hquiet
      obtain ⟨⟨xs', hxs'⟩, hfails⟩ := hbreaks.fails hquiet
      exact ⟨xs ++ xs', by rw [hxs', hxs, List.append_assoc], .inr ⟨_, rfl, hfails⟩⟩
  | wide hsearch hprobing hnarrows hupper hgap' =>
      have hin := hnarrows.within ⟨hhorizon, by rintro u ⟨⟩⟩
      have hfits := fits_gap hnarrows.lower_le (hin.2 _ hupper).1 (hin.2 _ hupper).2 hgap
      exact absurd (hgap'.symm.trans (Time.sub_eq_ok_iff.2 ⟨rfl, hfits⟩)) (by simp)

/-- A session of one task whose answers have a threshold within the horizon. -/
theorem reachability_certified_since_seven :
    ∃ r w' asked,
      Ends (reachability Script.backend lone .empty loneTask true fun _ => pure ())
        ⟨.empty, [], ⟨[], none, .since 7⟩, []⟩ r w' ∧
      w'.exchanges = asked ∧
        ((∃ found, r = .ok found ∧
            Certified 10 5 (Counts.empty.targetOf loneTask) asked found ∧
            ∀ first, Threshold Script.backend (Counts.empty.targetOf loneTask) first →
              Names 10 5 first found) ∨
          ∃ stop, r = .error stop ∧
            Fails Script.backend (Counts.empty.targetOf loneTask) (fun _ => pure ()) stop) := by
  obtain ⟨r, w', h⟩ := exists_ends
    (reachability Script.backend lone .empty loneTask true fun _ => pure ())
    ⟨.empty, [], ⟨[], none, .since 7⟩, []⟩
  have hquiet : Quiet (σ := Script) fun _ => pure () := by
    intro deadline w r w' h
    rw [(ends_pure.1 h).2]
  obtain ⟨asked, hasked, hresult⟩ :=
    reachability_certified (by decide) (by decide) (by decide) hquiet h
  exact ⟨r, w', asked, h, hasked, hresult⟩

/-! ## Tasks without a next occurrence -/

/-- A task whose count is the greatest one cannot be asked about. -/
theorem reachability_of_maxCount {searchDelay : Bool}
    {r : Except (Stop CheckError) Reachability}
    (ht : t ∈ s.units.tasks) (hcount : ¬ counts.get t.unit t.name < maxCount)
    (h : Ends (reachability backend s counts t searchDelay onInfeasible) w r w') :
    r = .error (.fault .sumOutOfRange) ∧ w' = w := by
  obtain ⟨sub, hsub, hordered⟩ :=
    Schedule.relaxed_eq_ok ht (Int.le_refl _) (s.fitsIn t ht).2
  have hfault := DeadlineSpec.ofSchedule_of_maxCount hordered hcount
  unfold reachability probe relaxedTarget at h
  rw [hsub] at h
  simp only [bind_assoc, ends_derived_bind] at h
  exact ends_specify_bind_of_fault hfault h

/-- A model checker that finds a path to every target. -/
def agreeable : Backend Unit where
  runBmc _ _ _ := pure ⟨⟨#[]⟩, none⟩
  openSession _ := pure ()
  getPath _ := pure (some "")

/-- If the count of the task is the greatest one, its session has no result, although nobody
fails. -/
theorem reachability_without_result :
    (∀ target state, ∃ path state',
        Ends (agreeable.getPath target) state (.ok (some path)) state') ∧
      Time.Fits (lone.horizon.closes - loneTask.deadline + 1) ∧
      ¬ ∃ found w', Ends
        (reachability agreeable lone ⟨[(("u", "n"), maxCount)]⟩ loneTask true fun _ => pure ())
        ⟨.empty, [], (), []⟩ (.ok found) w' := by
  refine ⟨fun target state => ⟨"", state, ends_pure.2 ⟨rfl, rfl⟩⟩, by decide, ?_⟩
  rintro ⟨found, w', h⟩
  exact absurd (reachability_of_maxCount (by decide) (by decide) h).1 (by simp)

end Punctual.Check
