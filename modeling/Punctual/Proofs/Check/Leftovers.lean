import Std.Data.String.ToInt
import Punctual.Proofs.Check.Verdict
import Punctual.Proofs.Text.Trimming

/-!
# What a check leaves behind

Those who read the results of a check look at two files: a run on which the task meets its deadline,
and the delay of a task that cannot. `Shows` says what the first holds after each result, `Keeps`
what the second holds, given the deadlines that the check has established to be infeasible. Both are
read off from the events of the check, whether it comes to a verdict or breaks off.

Infeasible deadlines are recorded in increasing order, each before the next question. So the delay
is that of the greatest one, except that a delay out of range ends the check before it is recorded.
-/

namespace Punctual

variable {σ : Type}

/-- After something was done, a file holds a text, or what it held before. -/
def Tree.Leaves (before after : Tree) (path : String) : Option String → Prop
  | none => after.at? path = before.at? path
  | some text => after.readText path = .ok text

/-- What a course leaves in a file that nobody else touches. -/
theorem Course.leaves {backend : Backend σ} {combiner : Combiner σ} {dir : String}
    {w w' : World σ} {es : List Event} {a : Artifact}
    (h : Course backend combiner dir w es w') (halone : LeavesAlone backend combiner dir a) :
    Tree.Leaves w.tree w'.tree (a.pathIn dir) (Event.texts a es).getLast? := by
  rcases h.content halone with ⟨hnone, hsame⟩ | ⟨text, hlast, hread⟩
  · rw [hnone]
    exact hsame
  · rw [hlast]
    exact hread

/-- The lines of an output without trailing blanks, as a run is written. -/
theorem Artifact.traceText_traceLines (output : String) :
    Artifact.traceText (Output.traceLines output) =
      Text.unlines ((Text.lines output).map Text.trimEnd) := by
  have htrimmed : Text.trimEnd ∘ Text.trimEnd = Text.trimEnd := by
    funext line
    exact Text.trimEnd_trimEnd line
  rw [Artifact.traceText, Output.traceLines, List.map_map, htrimmed]

/-- Questions about one occurrence differ if their deadlines do. -/
theorem Target.reachedBy_injective {g : Target} {deadline deadline' : Time}
    (h : g.reachedBy deadline = g.reachedBy deadline') : deadline = deadline' := by
  have htexts : toString deadline = toString deadline' := by
    have hlists := congrArg String.toList h
    simpa [reachedBy, ← String.toList_inj] using hlists
  exact Int.repr_injective htexts

/-- A completion time is never negative. -/
theorem Output.finalTime_nonneg {output : String} {time : Time}
    (h : Output.finalTime output = some time) : 0 ≤ time ∧ Time.Fits time := by
  have hmem := List.max?_mem h
  obtain ⟨digits, -, hdigits⟩ := List.mem_filterMap.1 hmem
  unfold Output.time? at hdigits
  split at hdigits
  · next n hn =>
      obtain ⟨hfits, rfl⟩ : Time.Fits n ∧ (n : Int) = time := by simpa using hdigits
      exact ⟨Int.natCast_nonneg n, hfits⟩
  · simp at hdigits

namespace Check

section Texts

variable {r : Recorder} {g : Target} {deadline : Time} {asked : Answers} {b : DelayBounds}
  {es : List Event} {stop : Stop CheckError}

/-- A deadline was answered as infeasible just if it was recorded as such. -/
theorem Recorded.answered_iff (h : Recorded r g asked es) {lower : Time} :
    Answered (Event.exchanges es) g lower none ↔ (lower, false) ∈ asked := by
  refine ⟨fun hasked => ?_, h.answered⟩
  induction h with
  | nil => exact absurd hasked List.not_mem_nil
  | feasible path _ ih =>
      rcases List.mem_cons.1 hasked with heq | htail
      · simp at heq
      · exact List.mem_cons_of_mem _ (ih htail)
  | infeasible hdelay _ ih =>
      rcases List.mem_cons.1 hasked with heq | htail
      · obtain ⟨htarget, -⟩ := Exchange.query.inj heq
        rw [Target.reachedBy_injective htarget]
        exact List.mem_cons_self
      · exact List.mem_cons_of_mem _ (ih htail)

theorem Recorded.texts_path (h : Recorded r g asked es) : Event.texts .path es = [] := by
  induction h with
  | nil => rfl
  | feasible path _ ih => exact ih
  | infeasible hdelay _ ih => exact ih

/-- All infeasible deadlines are recorded, in the order of the answers. -/
theorem Recorded.texts_delay (h : Recorded r g asked es)
    (hlate : ∀ p ∈ asked, r.task.deadline ≤ p.1) :
    Event.texts .delay es = asked.infeasible.map r.textAfter := by
  induction h with
  | nil => rfl
  | feasible path _ ih => exact ih fun p hp => hlate p (List.mem_cons_of_mem _ hp)
  | @infeasible lower delay asked es hdelay _ ih =>
      obtain ⟨rfl, -⟩ := (Recorder.delayAfter_eq_ok_iff (hlate _ List.mem_cons_self)).1 hdelay
      change r.textAfter lower :: Event.texts .delay es = r.textAfter lower :: _
      rw [ih fun p hp => hlate p (List.mem_cons_of_mem _ hp)]
      rfl

theorem Stopped.texts (h : Stopped r g deadline es stop) (a : Artifact) :
    Event.texts a es = [] := by
  cases h <;> rfl

/-- If the question itself got an answer, its record is out of range. -/
theorem Stopped.answered_iff (h : Stopped r g deadline es stop)
    (hwritten : ∀ path e, stop ≠ .error (.artifact path e)) {lower : Time} :
    Answered (Event.exchanges es) g lower none ↔
      lower = deadline ∧ ∃ f, stop = .fault f ∧
        Recorder.delayAfter deadline r.task.deadline = .error f := by
  cases h with
  | unanswered e =>
      refine iff_of_false ?_ (by simp)
      intro hasked
      simpa using (Exchange.query.inj (List.mem_singleton.1 hasked)).2
  | @unrecorded f hfault =>
      constructor
      · intro hasked
        obtain ⟨htarget, -⟩ := Exchange.query.inj (List.mem_singleton.1 hasked)
        exact ⟨Target.reachedBy_injective htarget, f, rfl, hfault⟩
      · rintro ⟨rfl, -⟩
        exact List.mem_cons_self
  | unwritten e hdelay => exact absurd rfl (hwritten _ e)

end Texts

/-! ## The delay -/

/-- What is known of the file of the delay, given the deadlines that are established to be
infeasible: it holds the record of the greatest one whose delay is in range. -/
inductive Keeps (r : Recorder) (established : Time → Prop) : Option String → Prop
  | nothing (hnone : ∀ lower, established lower → ¬ Time.Fits (lower - r.task.deadline + 1)) :
      Keeps r established none
  | greatest {lower : Time} (hlower : established lower)
      (hfits : Time.Fits (lower - r.task.deadline + 1))
      (hgreatest : ∀ later, established later →
        Time.Fits (later - r.task.deadline + 1) → later ≤ lower) :
      Keeps r established (some (r.entry (lower - r.task.deadline + 1)).text)

/-- The file of the delay fits the result. Unless the check ends with a fault, all delays are in
range. The delay of the verdict is the one after the greatest deadline that is established to be
infeasible, and it is the one that is recorded. -/
structure Delayed (r : Recorder) (established : Time → Prop)
    (result : Except (Stop CheckError) Verdict) (content : Option String) : Prop where
  keeps : Keeps r established content
  inRange : (∀ f, result ≠ .error (.fault f)) →
    ∀ lower, established lower → Time.Fits (lower - r.task.deadline + 1)
  verdict : ∀ t delay proof, result = .ok (.infeasible t (some delay) proof) →
    content = some (r.entry delay).text ∧
      ∃ lower, established lower ∧ (∀ later, established later → later ≤ lower) ∧
        delay = lower - r.task.deadline + 1

theorem Delayed.congr {r : Recorder} {established established' : Time → Prop}
    {result : Except (Stop CheckError) Verdict} {content : Option String}
    (h : Delayed r established result content)
    (hiff : ∀ lower, established lower ↔ established' lower) :
    Delayed r established' result content := by
  obtain rfl : established = established' := by
    funext lower
    exact propext (hiff lower)
  exact h

section Delayed

variable {r : Recorder} {g : Target} {asked : Answers} {b : DelayBounds} {es es' : List Event}
  {result : Except (Stop CheckError) Verdict} {stop : Stop CheckError} {later : Time}

/-- If no deadline is established to be infeasible, nothing is to be recorded. -/
theorem delayed_of_none {established : Time → Prop} (hnone : ∀ lower, ¬ established lower)
    (hverdict : ∀ t delay proof, result ≠ .ok (.infeasible t (some delay) proof)) :
    Delayed r established result none :=
  ⟨.nothing fun lower hlower => absurd hlower (hnone lower),
    fun _ lower hlower => absurd hlower (hnone lower),
    fun t delay proof heq => absurd heq (hverdict t delay proof)⟩

/-- A completion that is trusted to be the earliest one establishes the deadline before it, whose
delay is recorded. -/
theorem delayed_of_trusted {established : Time → Prop} {time delay : Time} {t : Task}
    {proof : InfeasibilityProof} (honly : ∀ lower, established lower ↔ lower = time - 1)
    (hlate : r.task.deadline < time)
    (hdelay : Recorder.delayAfter (time - 1) r.task.deadline = .ok delay) :
    Delayed r established (.ok (.infeasible t (some delay) proof)) (some (r.entry delay).text) := by
  obtain ⟨rfl, hfits⟩ :=
    (Recorder.delayAfter_eq_ok_iff (Int.le_sub_one_of_lt hlate)).1 hdelay
  have hestablished : established (time - 1) := (honly _).2 rfl
  refine ⟨.greatest hestablished hfits ?_, ?_, ?_⟩
  · intro later hlater _
    exact Int.le_of_eq ((honly later).1 hlater)
  · intro _ lower hlower
    rw [(honly lower).1 hlower]
    exact hfits
  · rintro t delay proof ⟨⟩
    exact ⟨rfl, _, hestablished, fun later hlater => Int.le_of_eq ((honly later).1 hlater), rfl⟩

/-- If that delay is out of range, nothing is recorded. -/
theorem delayed_of_overlong {established : Time → Prop} {time : Time} {f : Fault}
    (honly : ∀ lower, established lower → lower + 1 = time) (hlate : r.task.deadline < time)
    (htime : 0 ≤ time ∧ Time.Fits time)
    (hfault : ∀ lower, Time.sub time 1 = .ok lower →
      Recorder.delayAfter lower r.task.deadline = .error f) :
    Delayed r established (.error (.fault f)) none := by
  refine ⟨.nothing ?_, fun hnofault => absurd rfl (hnofault f), by simp⟩
  intro lower hestablished
  obtain rfl := honly lower hestablished
  have hlower := Time.sub_one_eq_ok htime.1 htime.2
  rw [Int.add_sub_cancel] at hlower
  exact Recorder.not_fits_of_delayAfter (Int.lt_add_one_iff.1 hlate) (hfault lower hlower)

namespace Narrowing

variable (h : Narrowing r g r.task.deadline asked b es)
include h

theorem late {lower : Time} {feasible : Bool}
    (hmem : (lower, feasible) ∈ (r.task.deadline, false) :: asked) : r.task.deadline ≤ lower := by
  rcases List.mem_cons.1 hmem with heq | htail
  · exact Int.le_of_eq (Prod.mk.inj heq).1.symm
  · exact Int.le_of_lt (h.narrows.lt_and_le_of_mem htail).1

theorem le_lower {lower : Time} (hmem : (lower, false) ∈ (r.task.deadline, false) :: asked) :
    lower ≤ b.lower := by
  rcases List.mem_cons.1 hmem with heq | htail
  · rw [(Prod.mk.inj heq).1]
    exact h.narrows.lower_le
  · exact h.narrows.le_lower_of_mem htail

theorem fits {lower : Time} (hmem : (lower, false) ∈ (r.task.deadline, false) :: asked) :
    Time.Fits (lower - r.task.deadline + 1) := by
  obtain ⟨delay, hdelay⟩ := h.recorded.exists_delay hmem
  exact ((Recorder.delayAfter_eq_ok_iff (h.late hmem)).1 hdelay).2

/-- The last record is that of the last lower bound. -/
theorem getLast?_texts :
    (Event.texts .delay es).getLast? =
      some (r.entry (b.lower - r.task.deadline + 1)).text := by
  rw [h.recorded.texts_delay fun p hp => h.late hp, List.getLast?_map]
  have hlast : (Answers.infeasible ((r.task.deadline, false) :: asked)).getLast? =
      some b.lower :=
    h.narrows.getLast?_infeasible
  rw [hlast]
  rfl

/-- A search whose infeasible deadlines are all recorded leaves the record of the greatest one. -/
theorem delayed (hverdict : ∀ t delay proof, result = .ok (.infeasible t (some delay) proof) →
      delay = b.lower - r.task.deadline + 1) :
    Delayed r (fun lower => Answered (Event.exchanges es) g lower none) result
      (Event.texts .delay es).getLast? := by
  have hmem {lower : Time} : Answered (Event.exchanges es) g lower none ↔ _ :=
    h.recorded.answered_iff
  rw [h.getLast?_texts]
  refine ⟨.greatest ?_ ?_ ?_, ?_, ?_⟩
  · exact hmem.2 h.narrows.lower_mem
  · exact h.fits h.narrows.lower_mem
  · intro later hlater _
    exact h.le_lower (hmem.1 hlater)
  · intro _ lower hlower
    exact h.fits (hmem.1 hlower)
  · intro t delay proof heq
    obtain rfl := hverdict t delay proof heq
    exact ⟨rfl, b.lower, hmem.2 h.narrows.lower_mem,
      fun later hlater => h.le_lower (hmem.1 hlater), rfl⟩

/-- So does a search that breaks off, unless the last delay is out of range. -/
theorem delayed_stopped (hstopped : Stopped r g later es' stop) (hlater : b.lower < later)
    (hwritten : ∀ path e, stop ≠ .error (.artifact path e)) :
    Delayed r (fun lower => Answered (Event.exchanges (es ++ es')) g lower none)
      (.error stop) (Event.texts .delay (es ++ es')).getLast? := by
  have hmem {lower : Time} : Answered (Event.exchanges (es ++ es')) g lower none ↔
      (lower, false) ∈ (r.task.deadline, false) :: asked ∨
        lower = later ∧ ∃ f, stop = .fault f ∧
          Recorder.delayAfter later r.task.deadline = .error f := by
    rw [← h.recorded.answered_iff, ← hstopped.answered_iff hwritten, Event.exchanges_append]
    exact List.mem_append
  have hlate : r.task.deadline ≤ later :=
    Int.le_of_lt (Int.lt_of_le_of_lt h.narrows.lower_le hlater)
  rw [Event.texts_append, hstopped.texts, List.append_nil, h.getLast?_texts]
  refine ⟨.greatest ?_ ?_ ?_, ?_, ?_⟩
  · exact hmem.2 (.inl h.narrows.lower_mem)
  · exact h.fits h.narrows.lower_mem
  · intro lower hlower hfits
    rcases hmem.1 hlower with hasked | ⟨rfl, f, -, hfault⟩
    · exact h.le_lower hasked
    · exact absurd hfits (Recorder.not_fits_of_delayAfter hlate hfault)
  · intro hnofault lower hlower
    rcases hmem.1 hlower with hasked | ⟨rfl, f, rfl, -⟩
    · exact h.fits hasked
    · exact absurd rfl (hnofault f)
  · simp

end Narrowing

/-- A check whose first question breaks off leaves no record. -/
theorem Stopped.delayed (hstopped : Stopped r g r.task.deadline es stop)
    (hwritten : ∀ path e, stop ≠ .error (.artifact path e)) :
    Delayed r (fun lower => Answered (Event.exchanges es) g lower none) (.error stop)
      (Event.texts .delay es).getLast? := by
  rw [hstopped.texts]
  refine ⟨.nothing ?_, ?_, by simp⟩
  · intro lower hlower
    obtain ⟨rfl, f, -, hfault⟩ := (hstopped.answered_iff hwritten).1 hlower
    exact Recorder.not_fits_of_delayAfter (Int.le_refl _) hfault
  · intro hnofault lower hlower
    obtain ⟨-, f, rfl, -⟩ := (hstopped.answered_iff hwritten).1 hlower
    exact absurd rfl (hnofault f)

end Delayed

end Check

namespace Checker

open Check

/-! ## Established deadlines -/

/-- A check has established that a deadline is infeasible: the model checker answered so, or the
timeout heuristic is trusted and the search was exhausted with the next time step as the earliest
completion. -/
inductive Established (c : Checker σ) (g : Target) (t : Task) (xs : List Exchange)
    (lower : Time) : Prop
  | answered (hasked : Answered xs g lower none) : Established c g t xs lower
  | trusted (htrust : c.options.trustHeuristic = true) (hlate : t.deadline ≤ lower)
      (hexhausted : Exhausted xs (lower + 1)) : Established c g t xs lower

section Established

variable {c : Checker σ} {r : Recorder} {g : Target} {t : Task} {xs ys : List Exchange}
  {es : List Event} {result : Except (Stop CheckError) Verdict} {found : BmcSearch}
  {modelPath : String} {a : Artifact}

theorem Decided.keepsDelay (h : Decided c r g r.task es result)
    (hwritten : ∀ path e, result ≠ .error (.error (.artifact path e))) :
    Delayed r (fun lower => Answered (Event.exchanges es) g lower none) result
      (Event.texts .delay es).getLast? := by
  cases h with
  | undecided hstopped => exact hstopped.delayed (by simpa using hwritten)
  | feasible path =>
      refine delayed_of_none ?_ (by simp)
      intro lower hasked
      simpa using (Exchange.query.inj (List.mem_singleton.1 hasked)).2
  | unwritten path e => exact absurd rfl (hwritten _ e)
  | assumed hassumed hrecorded hdelay =>
      have hnarrowing : Narrowing r g r.task.deadline [] (.ofDeadline r.task.deadline) es :=
        ⟨hrecorded, .nil _⟩
      refine hnarrowing.delayed ?_
      rintro t delay proof ⟨⟩
      exact ((Recorder.delayAfter_eq_ok_iff (Int.le_refl _)).1 hdelay).1
  | delayed hnarrowing hupper hdelay =>
      refine hnarrowing.delayed ?_
      rintro t delay proof ⟨⟩
      exact ((Recorder.delayAfter_eq_ok_iff hnarrowing.narrows.lower_le).1 hdelay).1
  | hopeless hnarrowing hlower => exact hnarrowing.delayed (by simp)
  | broken hnarrowing hbracket hstopped =>
      exact hnarrowing.delayed_stopped hstopped hbracket.1 (by simpa using hwritten)
  | wide hnarrowing hupper hgap => exact hnarrowing.delayed (by simp)

/-- Runs answer no question about a deadline. -/
theorem not_answered_of_search {dir : String} {options : BmcOptions} {model : String}
    {point : BmcSearch} {r : Except (Stop CheckError) BmcSearch} {lower : Time}
    {path : Option String} (h : BmcSearch.SearchEvents dir options model g point es r) :
    ¬ Answered (Event.exchanges es) g lower path := by
  intro hasked
  obtain ⟨-, last, answer, -, -, -, hrun⟩ := h.exists_run (Event.mem_exchanges.1 hasked)
  simp [BmcSearch.runEvents] at hrun

/-- A session does not exhaust a search. -/
theorem not_exhausted_of_session (h : Queries ys) (answer : Except SolverError Unit)
    (time : Time) : ¬ Exhausted (xs ++ .session modelPath answer :: ys) time := by
  rintro ⟨before, model, n, timeout, a, heq, -⟩
  have hlast : (xs ++ .session modelPath answer :: ys).getLast? =
      some (.run model n timeout (.ok a)) := by
    rw [heq, List.getLast?_concat]
  rw [List.getLast?_append_of_ne_nil _ (List.cons_ne_nil _ _)] at hlast
  rcases List.mem_cons.1 (List.mem_of_getLast? hlast) with hsession | hquery
  · simp at hsession
  · obtain ⟨target, answer, hquery⟩ := h _ hquery
    simp at hquery

theorem texts_of_preparations (h : ∀ e ∈ es, IsPreparation e) (ha : a = .path ∨ a = .delay) :
    Event.texts a es = [] := by
  refine List.filterMap_eq_nil_iff.2 ?_
  intro e he
  obtain ⟨b, text, rfl, hb⟩ := h e he
  refine if_neg ?_
  rintro rfl
  rcases ha with rfl | rfl <;> simp at hb

theorem texts_of_search {dir : String} {options : BmcOptions} {model : String}
    {point : BmcSearch} {r : Except (Stop CheckError) BmcSearch}
    (h : BmcSearch.SearchEvents dir options model g point es r) (ha : a = .path ∨ a = .delay) :
    Event.texts a es = [] := by
  refine List.filterMap_eq_nil_iff.2 ?_
  intro e he
  obtain ⟨-, last, answer, -, -, -, hrun⟩ := h.exists_run he
  rcases List.mem_cons.1 hrun with rfl | hasked
  · refine if_neg ?_
    rintro rfl
    simp at ha
  · obtain rfl := List.mem_singleton.1 hasked
    rfl

/-- Neither the preparations of a check nor its search write a result. -/
theorem texts_of_searched {es' : List Event} {dir : String} {options : BmcOptions}
    {model : String} {point : BmcSearch} {r : Except (Stop CheckError) BmcSearch}
    (hprep : ∀ e ∈ es, IsPreparation e)
    (hsearch : BmcSearch.SearchEvents dir options model g point es' r)
    (ha : a = .path ∨ a = .delay) : Event.texts a (es ++ es') = [] := by
  rw [Event.texts_append, texts_of_preparations hprep ha, texts_of_search hsearch ha,
    List.append_nil]

/-- Completions lie in range and are never negative. -/
theorem nonneg_of_mem_completions {time : Time} (h : time ∈ completions xs) :
    0 ≤ time ∧ Time.Fits time := by
  obtain ⟨x, -, hx⟩ := List.mem_filterMap.1 h
  unfold Exchange.completion? at hx
  split at hx
  · unfold BmcAnswer.completion? at hx
    split at hx
    · exact Output.finalTime_nonneg hx
    · simp at hx
  · simp at hx

/-- Nothing is established while no question is answered and no search is exhausted. -/
theorem not_established (hasked : ∀ lower path, ¬ Answered xs g lower path)
    (hexhausted : ∀ time, ¬ Exhausted xs time) (lower : Time) :
    ¬ Established c g t xs lower := by
  rintro (hanswered | ⟨-, -, hlast⟩)
  · exact hasked _ _ hanswered
  · exact hexhausted _ hlast

/-- What the timeout heuristic establishes after an exhausted search. -/
theorem established_iff_of_search (hasked : ∀ lower path, ¬ Answered xs g lower path)
    (hexhausted : ∀ time, Exhausted xs time ↔ found.finalTime = some time)
    (hmissed : found.meets t.deadline = false) {lower : Time} :
    Established c g t xs lower ↔
      c.options.trustHeuristic = true ∧ found.finalTime = some (lower + 1) := by
  constructor
  · rintro (hanswered | ⟨htrust, -, hlast⟩)
    · exact absurd hanswered (hasked _ _)
    · exact ⟨htrust, (hexhausted _).1 hlast⟩
  · rintro ⟨htrust, hfinal⟩
    have hlate : t.deadline < lower + 1 := by simpa [BmcSearch.meets, hfinal] using hmissed
    exact .trusted htrust (Int.lt_add_one_iff.1 hlate) ((hexhausted _).2 hfinal)

theorem established_iff_of_session (hasked : ∀ lower path, ¬ Answered xs g lower path)
    (h : Queries ys) (answer : Except SolverError Unit) {lower : Time} :
    Established c g t (xs ++ .session modelPath answer :: ys) lower ↔
      Answered ys g lower none := by
  constructor
  · rintro (hanswered | ⟨-, -, hlast⟩)
    · rcases List.mem_append.1 hanswered with hrun | hsession
      · exact absurd hrun (hasked _ _)
      · exact (List.mem_cons.1 hsession).resolve_left (by simp)
    · exact absurd hlast (not_exhausted_of_session h answer _)
  · intro hanswered
    exact .answered (List.mem_append_right _ (List.mem_cons_of_mem _ hanswered))

/-- The delay after a search that missed the deadline. -/
theorem Inconclusive.keepsDelay (h : Inconclusive c r g r.task found modelPath es result)
    (hpoint : BmcSearch.IsPoint c.options.bmc g found)
    (hasked : ∀ lower path, ¬ Answered xs g lower path)
    (hexhausted : ∀ time, Exhausted xs time ↔ found.finalTime = some time)
    (hmissed : found.meets r.task.deadline = false)
    (hwritten : ∀ path e, result ≠ .error (.error (.artifact path e))) :
    Delayed r (Established c g r.task (xs ++ Event.exchanges es)) result
      (Event.texts .delay es).getLast? := by
  have hiff {lower : Time} : Established c g r.task xs lower ↔ _ :=
    established_iff_of_search hasked hexhausted hmissed
  have hlate {time : Time} (hfinal : found.finalTime = some time) : r.task.deadline < time := by
    simpa [BmcSearch.meets, hfinal] using hmissed
  cases h with
  | unknown hfault =>
      rw [heuristicTime_eq hpoint] at hfault
      simp at hfault
  | @heuristic time lower delay htime hlower hdelay =>
      obtain ⟨htrust, hfinal⟩ := (heuristicTime_eq_some_iff hpoint).1 htime
      obtain ⟨rfl, -⟩ := Time.sub_eq_ok_iff.1 hlower
      rw [Event.exchanges_wrote, Event.exchanges_nil, List.append_nil, Event.texts_wrote_self]
      refine delayed_of_trusted ?_ (hlate hfinal) hdelay
      intro lower
      rw [hiff, hfinal, Option.some.injEq]
      constructor
      · rintro ⟨-, rfl⟩
        exact (Int.add_sub_cancel lower 1).symm
      · rintro rfl
        exact ⟨htrust, (Int.sub_add_cancel time 1).symm⟩
  | @overlong time f htime hfault =>
      obtain ⟨-, hfinal⟩ := (heuristicTime_eq_some_iff hpoint).1 htime
      obtain ⟨before, _, _, _, _, rfl, hleast, -⟩ := (hexhausted time).2 hfinal
      rw [Event.exchanges_nil, List.append_nil]
      refine delayed_of_overlong ?_ (hlate hfinal)
        (nonneg_of_mem_completions (List.min?_mem hleast)) hfault
      intro lower hlower
      exact Option.some.inj ((hiff.1 hlower).2.symm.trans hfinal)
  | unwritten e htime => exact absurd rfl (hwritten _ e)
  | undetermined htime hfallback =>
      rw [heuristicTime_eq hpoint] at htime
      rw [Event.exchanges_nil, List.append_nil]
      refine delayed_of_none ?_ (by simp)
      intro lower hlower
      obtain ⟨htrust, hfinal⟩ := hiff.1 hlower
      simp [htrust, hfinal] at htime
  | unopened e htime hfallback =>
      refine delayed_of_none ?_ (by simp)
      intro lower hlower
      have hanswered : Answered [] g lower none :=
        (established_iff_of_session hasked queries_nil _).1 hlower
      exact absurd hanswered List.not_mem_nil
  | @decided es' _ htime hfallback hdecided =>
      refine (hdecided.keepsDelay hwritten).congr fun lower => ?_
      rw [Event.exchanges_asked]
      exact (established_iff_of_session hasked hdecided.queries _).symm

/-- The delay at the end of every check of a task. -/
theorem TaskCourse.keepsDelay (h : TaskCourse c r g r.task es result)
    (hdeadline : g.deadline = r.task.deadline)
    (hwritten : ∀ path e, result ≠ .error (.error (.artifact path e))) :
    Delayed r (Established c g r.task (Event.exchanges es)) result
      (Event.texts .delay es).getLast? := by
  cases h with
  | unprepared hprep =>
      rw [texts_of_preparations hprep (.inr rfl), exchanges_of_preparations hprep]
      refine delayed_of_none (not_established (fun lower path => List.not_mem_nil) ?_) (by simp)
      rintro time ⟨before, _, _, _, _, heq, -⟩
      simp at heq
  | @unsearched es es₁ model stop hprep hsearch =>
      have hexhausted (time : Time) : ¬ Exhausted (Event.exchanges es₁) time := by
        rw [hsearch.exhausted_iff (by simpa using hwritten)]
        simp
      simp only [Event.texts_append, Event.exchanges_append, exchanges_of_preparations hprep,
        texts_of_preparations hprep (.inr rfl), texts_of_search hsearch (.inr rfl),
        List.nil_append]
      exact delayed_of_none
        (not_established (fun lower path => not_answered_of_search hsearch) hexhausted) (by simp)
  | @met es es₁ model found trace hprep hsearch hmeets htrace =>
      have htexts : Event.texts .delay (es ++ es₁ ++ [.wrote .path (Artifact.traceText trace)]) =
          [] := by
        rw [Event.texts_append, texts_of_searched hprep hsearch (.inr rfl),
          Event.texts_wrote_of_ne (by simp)]
        rfl
      have hexhausted (time : Time) : ¬ Exhausted (Event.exchanges es₁) time := by
        intro hlast
        obtain ⟨_, ⟨⟩, hmissed, -⟩ := (hsearch.exhausted_iff (by simp)).1 hlast
        rw [hdeadline, hmeets] at hmissed
        simp at hmissed
      rw [htexts]
      simp only [Event.exchanges_append, exchanges_of_preparations hprep, List.nil_append,
        Event.exchanges_wrote, Event.exchanges_nil, List.append_nil]
      exact delayed_of_none
        (not_established (fun lower path => not_answered_of_search hsearch) hexhausted) (by simp)
  | unwritten e => exact absurd rfl (hwritten _ e)
  | @inconclusive es es₁ es₂ model modelPath found _ hprep hsearch hmissed hinconclusive =>
      have hpoint := hsearch.isPoint_of_missed (by rwa [hdeadline])
      have hexhausted (time : Time) :
          Exhausted (Event.exchanges es₁) time ↔ found.finalTime = some time := by
        refine (hsearch.exhausted_iff (by simp)).trans ?_
        constructor
        · rintro ⟨_, ⟨⟩, -, hfinal⟩
          exact hfinal
        · intro hfinal
          exact ⟨found, rfl, hdeadline ▸ hmissed, hfinal⟩
      simp only [Event.texts_append, Event.exchanges_append, exchanges_of_preparations hprep,
        texts_of_preparations hprep (.inr rfl), texts_of_search hsearch (.inr rfl),
        List.nil_append]
      exact hinconclusive.keepsDelay hpoint (fun lower path => not_answered_of_search hsearch)
        hexhausted hmissed hwritten

end Established

/-! ## The run -/

/-- What the file of the run holds after a result: nothing is known, or it shows the lines of the
output by which the task meets its deadline, which is the last answer of the check. -/
inductive Shows (g : Target) (t : Task) (xs : List Exchange) :
    Except (Stop CheckError) Verdict → String → Prop
  | nothing {result : Except (Stop CheckError) Verdict}
      (hresult : ∀ v, result = .ok v → v.isFeasible = false) :
      Shows g t xs result Artifact.placeholder
  /-- The last run was accepted, and it completes the task in time. -/
  | completed {before : List Exchange} {model : String} {bmcLength : Nat} {timeout : Duration}
      {answer : BmcAnswer} {time : Time}
      (hlast : xs = before ++ [.run model bmcLength timeout (.ok answer)])
      (hcompletion : answer.completion? = some time)
      (hearlier : ∀ c ∈ completions before, time < c) (hmet : time ≤ t.deadline) :
      Shows g t xs (.ok (.feasible t (some time) .bmc))
        (Text.unlines ((Text.lines (Text.decodeLossy answer.output)).map Text.trimEnd))
  /-- The answer about the deadline of the task is a path. -/
  | reached {before : List Exchange} {path : String}
      (hlast : xs = before ++ [.query (g.reachedBy t.deadline) (.ok (some path))]) :
      Shows g t xs (.ok (.feasible t (Output.finalTime path) .fullMc))
        (Text.unlines ((Text.lines path).map Text.trimEnd))

section Shows

variable {c : Checker σ} {r : Recorder} {g : Target} {t : Task} {xs : List Exchange}
  {es : List Event} {result : Except (Stop CheckError) Verdict} {found : BmcSearch}
  {modelPath : String}

theorem Decided.shows (h : Decided c r g t es result)
    (hwritten : ∀ path e, result ≠ .error (.error (.artifact path e))) :
    Shows g t (xs ++ Event.exchanges es) result
      ((Event.texts .path es).getLast?.getD Artifact.placeholder) := by
  cases h with
  | undecided hstopped =>
      rw [hstopped.texts]
      exact .nothing (by simp)
  | feasible path =>
      change Shows g t _ _ (Artifact.traceText (Output.traceLines path))
      rw [Artifact.traceText_traceLines]
      exact .reached rfl
  | unwritten path e => exact absurd rfl (hwritten _ e)
  | assumed hassumed hrecorded hdelay =>
      rw [hrecorded.texts_path]
      exact .nothing (by simp [Verdict.isFeasible])
  | delayed hnarrowing hupper hdelay =>
      rw [hnarrowing.recorded.texts_path]
      exact .nothing (by simp [Verdict.isFeasible])
  | hopeless hnarrowing hlower =>
      rw [hnarrowing.recorded.texts_path]
      exact .nothing (by simp [Verdict.isFeasible])
  | broken hnarrowing hbracket hstopped =>
      rw [Event.texts_append, hnarrowing.recorded.texts_path, hstopped.texts]
      exact .nothing (by simp)
  | wide hnarrowing hupper hgap =>
      rw [hnarrowing.recorded.texts_path]
      exact .nothing (by simp)

theorem Inconclusive.shows (h : Inconclusive c r g t found modelPath es result)
    (hwritten : ∀ path e, result ≠ .error (.error (.artifact path e))) :
    Shows g t (xs ++ Event.exchanges es) result
      ((Event.texts .path es).getLast?.getD Artifact.placeholder) := by
  cases h with
  | unknown hfault => exact .nothing (by simp)
  | heuristic htime hlower hdelay =>
      rw [Event.texts_wrote_of_ne (by simp)]
      exact .nothing (by simp [Verdict.isFeasible])
  | overlong htime hfault => exact .nothing (by simp)
  | unwritten e htime => exact absurd rfl (hwritten _ e)
  | undetermined htime hfallback => exact .nothing (by simp [Verdict.isFeasible])
  | unopened e htime hfallback => exact .nothing (by simp)
  | @decided es' _ htime hfallback hdecided =>
      rw [Event.exchanges_asked, List.append_cons, Event.texts_asked]
      exact hdecided.shows hwritten

/-- The run at the end of every check of a task. -/
theorem TaskCourse.shows (h : TaskCourse c r g t es result)
    (hdeadline : g.deadline = t.deadline)
    (hwritten : ∀ path e, result ≠ .error (.error (.artifact path e))) :
    Shows g t (Event.exchanges es) result
      ((Event.texts .path es).getLast?.getD Artifact.placeholder) := by
  cases h with
  | unprepared hprep =>
      rw [texts_of_preparations hprep (.inl rfl)]
      exact .nothing (by simp)
  | unsearched hprep hsearch =>
      rw [texts_of_searched hprep hsearch (.inl rfl)]
      exact .nothing (by simp)
  | @met es es₁ model found trace hprep hsearch hmeets htrace =>
      obtain ⟨before, text, n, timeout, answer, time, hlast, hcompletion, hearlier, hmet, hfinal,
        hshown⟩ := hsearch.exists_last (by rwa [hdeadline])
      obtain rfl := Option.some.inj (htrace.symm.trans hshown)
      simp only [Event.texts_append, Event.exchanges_append, exchanges_of_preparations hprep,
        texts_of_preparations hprep (.inl rfl), texts_of_search hsearch (.inl rfl),
        List.nil_append, Event.exchanges_wrote, Event.exchanges_nil, List.append_nil]
      change Shows g t _ _ (Artifact.traceText (Output.traceLines _))
      rw [Artifact.traceText_traceLines, hfinal]
      exact .completed hlast hcompletion hearlier (hdeadline ▸ hmet)
  | unwritten e => exact absurd rfl (hwritten _ e)
  | @inconclusive es es₁ es₂ model modelPath found _ hprep hsearch hmissed hinconclusive =>
      simp only [Event.texts_append, Event.exchanges_append, exchanges_of_preparations hprep,
        texts_of_preparations hprep (.inl rfl), texts_of_search hsearch (.inl rfl),
        List.nil_append]
      exact hinconclusive.shows hwritten

end Shows

/-! ## Whole checks -/

/-- What a check leaves in the files of its results. -/
inductive Leftovers (c : Checker σ) (s : Schedule) (state : PlantState) (w : World σ)
    (result : Except (Stop CheckError) Verdict) (w' : World σ) : Prop
  | idle (hresult : result = .ok .noActiveTask)
      (hpath : w'.tree.readText (Artifact.path.pathIn c.dir) = .ok Artifact.placeholder)
      (hdelay : w'.tree.at? (Artifact.delay.pathIn c.dir) =
        w.tree.at? (Artifact.delay.pathIn c.dir))
  | task {earlier : List Task} {t : Task} {xs : List Exchange} {text : String}
      {content : Option String}
      (hselects : s.Selects state.time c.options.keyUnit earlier t)
      (hexchanges : w'.exchanges = w.exchanges ++ xs)
      (hshows : Shows (Schedule.occurrence earlier t) t xs result text)
      (hpath : w'.tree.readText (Artifact.path.pathIn c.dir) = .ok text)
      (hdelayed : Delayed (.ofTask c.dir s state t)
        (Established c (Schedule.occurrence earlier t) t xs) result content)
      (hdelay : Tree.Leaves w.tree w'.tree (Artifact.delay.pathIn c.dir) content)

/-- What a check of files leaves there, if its first write leads to the files `tree`. -/
inductive FilesLeftovers (c : Checker σ) (schedulePath statePath : String) (tree : Tree)
    (w : World σ) (result : Except (Stop CheckError) Verdict) (w' : World σ) : Prop
  /-- The schedule or the state could not be read. -/
  | unread {e : CheckError} (hresult : result = .error (.error e))
      (hexchanges : w'.exchanges = w.exchanges)
      (hpath : w'.tree.readText (Artifact.path.pathIn c.dir) = .ok Artifact.placeholder)
      (hdelay : w'.tree.at? (Artifact.delay.pathIn c.dir) =
        w.tree.at? (Artifact.delay.pathIn c.dir))
  | checked {s : Schedule} {state : PlantState}
      (hschedule : tree.readInput schedulePath Schedule.read = .ok s)
      (hstate : tree.readInput statePath PlantState.read = .ok state)
      (hleftovers : Leftovers c s state w result w')

section Leftovers

variable {c : Checker σ} {s : Schedule} {state : PlantState} {w w' : World σ} {tree : Tree}
  {es : List Event} {result : Except (Stop CheckError) Verdict}

/-- The file of the run holds what was written to it after it was marked as not known. -/
theorem readText_path (hpath : LeavesAlone c.backend c.combiner c.dir .path)
    (hstore : Artifact.store w.tree c.dir .path Artifact.placeholder = .ok tree)
    (hcourse : Course c.backend c.combiner c.dir { w with tree := tree } es w') :
    w'.tree.readText (Artifact.path.pathIn c.dir) =
      .ok ((Event.texts .path es).getLast?.getD Artifact.placeholder) := by
  have hleaves := ((Move.wrote hstore).course.append hcourse).leaves hpath
  rw [List.singleton_append, Event.texts_wrote_self, List.getLast?_cons] at hleaves
  exact hleaves

theorem leaves_delay (hdelay : LeavesAlone c.backend c.combiner c.dir .delay)
    (hstore : Artifact.store w.tree c.dir .path Artifact.placeholder = .ok tree)
    (hcourse : Course c.backend c.combiner c.dir { w with tree := tree } es w') :
    Tree.Leaves w.tree w'.tree (Artifact.delay.pathIn c.dir)
      (Event.texts .delay es).getLast? := by
  have hleaves := ((Move.wrote hstore).course.append hcourse).leaves hdelay
  rw [List.singleton_append, Event.texts_wrote_of_ne (by simp)] at hleaves
  exact hleaves

theorem CheckCourse.leftovers (hpath : LeavesAlone c.backend c.combiner c.dir .path)
    (hdelay : LeavesAlone c.backend c.combiner c.dir .delay)
    (hstore : Artifact.store w.tree c.dir .path Artifact.placeholder = .ok tree)
    (hcourse : Course c.backend c.combiner c.dir { w with tree := tree } es w')
    (hcheck : CheckCourse c s state es result)
    (hwritten : ∀ path e, result ≠ .error (.error (.artifact path e))) :
    Leftovers c s state w result w' := by
  have hrun := readText_path hpath hstore hcourse
  have hleaves := leaves_delay hdelay hstore hcourse
  cases hcheck with
  | idle hnone => exact .idle rfl hrun hleaves
  | @task earlier t es' result hselects htask =>
      exact .task hselects hcourse.exchanges_eq (htask.shows rfl hwritten) hrun
        (TaskCourse.keepsDelay htask rfl hwritten) hleaves

/-- If nobody else touches the two files and all writes succeed, they fit the result of the check,
whether it is a verdict, an error or a fault. -/
theorem results_left (hpath : LeavesAlone c.backend c.combiner c.dir .path)
    (hdelay : LeavesAlone c.backend c.combiner c.dir .delay)
    (hwritten : ∀ path e, result ≠ .error (.error (.artifact path e))) :
    (∀ s state, Ends (c.check s state) w result w' → Leftovers c s state w result w') ∧
      ∀ schedulePath statePath, Ends (c.checkFiles schedulePath statePath) w result w' →
        ∃ tree, Artifact.store w.tree c.dir .path Artifact.placeholder = .ok tree ∧
          FilesLeftovers c schedulePath statePath tree w result w' := by
  constructor
  · intro s state h
    cases check_course h with
    | unmarked e => exact absurd rfl (hwritten _ e)
    | marked hstore hcourse hcheck =>
        exact hcheck.leftovers hpath hdelay hstore hcourse hwritten
  · intro schedulePath statePath h
    cases checkFiles_course h with
    | unmarked e => exact absurd rfl (hwritten _ e)
    | @marked tree es _ _ hstore hcourse hfiles =>
        refine ⟨tree, hstore, ?_⟩
        have hrun := readText_path hpath hstore hcourse
        have hleaves := leaves_delay hdelay hstore hcourse
        have hexchanges : w'.exchanges = w.exchanges ++ Event.exchanges es := hcourse.exchanges_eq
        cases hfiles with
        | noSchedule hread =>
            rw [Event.exchanges_nil, List.append_nil] at hexchanges
            exact .unread rfl hexchanges hrun hleaves
        | noState hread =>
            rw [Event.exchanges_nil, List.append_nil] at hexchanges
            exact .unread rfl hexchanges hrun hleaves
        | checked hschedule hstate hcheck =>
            exact .checked hschedule hstate
              (hcheck.leftovers hpath hdelay hstore hcourse hwritten)

end Leftovers

theorem leavesAlone_carefree {dir : String} (a : Artifact) :
    LeavesAlone carefree.backend carefree.combiner dir a := by
  refine ⟨?_, ?_, ?_, fun _ _ _ _ => rfl⟩
  · intro path n timeout s r s' hrun
    rw [(ends_pure.1 hrun).2]
  · intro path s r s' hopen
    rw [(ends_pure.1 hopen).2]
  · intro target s r s' hasked
    rw [(ends_pure.1 hasked).2]

/-- The files after a check whose task is feasible. -/
theorem results_left_carefree :
    ∃ r w', Ends (carefree.check lone ⟨0, .null, []⟩) ⟨.empty, [], (), []⟩ r w' ∧
      r.toOption.any Verdict.isFeasible ∧
        Leftovers carefree lone ⟨0, .null, []⟩ ⟨.empty, [], (), []⟩ r w' := by
  obtain ⟨r, w', h, hr⟩ := exists_ends_of_endsIn (carefree.check lone ⟨0, .null, []⟩)
    ⟨.empty, [], (), []⟩ (fun r => r.toOption.any Verdict.isFeasible) (by decide +kernel)
  have hwritten : ∀ path e, r ≠ .error (.error (.artifact path e)) := by
    rintro path e rfl
    simp [Except.toOption] at hr
  obtain ⟨hleft, -⟩ := results_left (w := ⟨.empty, [], (), []⟩) (leavesAlone_carefree .path)
    (leavesAlone_carefree .delay) hwritten
  exact ⟨r, w', h, hr, hleft _ _ h⟩

end Checker

end Punctual
