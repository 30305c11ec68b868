import Mathlib.Order.Bounds.Basic
import Punctual.Proofs.Check.Completion

/-!
# Searches with a complete model checker

A target of a plant can be completed at certain times. A bounded model checker is complete for them
if it refutes every claim of a search that one of them contradicts, and by one of them. Such a model
checker is free to choose among these times, but a search always ends with the earliest one, unless
it ends before with one that meets the deadline (`Finds`).
-/

namespace Punctual

variable {σ : Type}

/-- The longest of some durations is one of them. -/
theorem Duration.mem_of_longest? {ds : List Duration} {d : Duration}
    (h : Duration.longest? ds = some d) : d ∈ ds := by
  have hfold (d₀ : Duration) (ds : List Duration) : ds.foldl Duration.max d₀ ∈ d₀ :: ds := by
    induction ds generalizing d₀ with
    | nil => exact List.mem_cons_self
    | cons d₁ ds ih =>
        rcases List.mem_cons.1 (ih (Duration.max d₀ d₁)) with heq | htail
        · rw [List.foldl_cons, heq]
          unfold Duration.max
          split <;> simp
        · exact List.mem_cons_of_mem _ (List.mem_cons_of_mem _ htail)
  cases ds with
  | nil => simp [Duration.longest?] at h
  | cons d₀ ds =>
      obtain rfl := Option.some.inj h
      exact hfold d₀ ds

/-- Given the times at which a target can be completed, an answer settles whether it can be
completed before the one that is known. -/
inductive BmcAnswer.Settles (answer : BmcAnswer) (times : Set Time) (known : Option Time) : Prop
  | refuted {time : Time} (hcompletion : answer.completion? = some time) (htime : time ∈ times)
      (hearlier : ∀ k ∈ known, time < k)
  | unrefuted (hnone : answer.completion? = none) (hall : ∀ time ∈ times, ∃ k ∈ known, k ≤ time)

namespace BmcSearch

/-- Every claim of a search gets an answer that settles it. -/
def Complete (backend : Backend σ) (dir : String) (options : BmcOptions) (model : String)
    (target : Target) (times : Set Time) : Prop :=
  ∀ known timeout s, (∀ k ∈ known, k ∈ times) →
    s.1.readText (Artifact.bmc.pathIn dir) = .ok (claimModel model (target.claimBefore known)) →
      ∃ answer s', answer.Settles times known ∧
        Ends (backend.runBmc (Artifact.bmc.pathIn dir) options.bmcLength timeout) s (.ok answer) s'

/-- However long a run takes, there is a timeout for the next one. -/
def Extensible (backend : Backend σ) (options : BmcOptions) : Prop :=
  ∀ path bmcLength timeout s answer s' elapsed,
    Ends (backend.runBmc path bmcLength timeout) s (.ok answer) s' →
      answer.elapsed = some elapsed →
        ∃ next, elapsed.scale options.timeoutFactor = .ok next

/-- The search found one of the times, the earliest one unless it meets the deadline. -/
structure Finds (times : Set Time) (deadline : Time) (found : BmcSearch) : Prop where
  mem : ∀ time ∈ found.finalTime, time ∈ times
  least : found.meets deadline = false → ∀ time ∈ times, ∃ k ∈ found.finalTime, k ≤ time

section Finds

variable {times : Set Time} {deadline first : Time} {found : BmcSearch}

theorem Finds.meets_iff (h : Finds times deadline found) :
    found.meets deadline ↔ ∃ time ∈ times, time ≤ deadline := by
  constructor
  · intro hmeets
    obtain ⟨time, hfinal, hmet⟩ := (Option.any_eq_true _ _).1 hmeets
    exact ⟨time, h.mem time hfinal, of_decide_eq_true hmet⟩
  · rintro ⟨time, htime, hmet⟩
    by_contra hmissed
    obtain ⟨k, hk, hle⟩ := h.least (Bool.eq_false_iff.2 hmissed) time htime
    exact hmissed ((Option.any_eq_true _ _).2 ⟨k, hk, decide_eq_true (Int.le_trans hle hmet)⟩)

theorem Finds.finalTime_eq (h : Finds times deadline found)
    (hmissed : found.meets deadline = false) (hleast : IsLeast times first) :
    found.finalTime = some first := by
  obtain ⟨k, hk, hle⟩ := h.least hmissed first hleast.1
  obtain rfl : k = first := Int.le_antisymm hle (hleast.2 (h.mem k hk))
  exact hk

end Finds

/-! ## Points of a search -/

section Points

variable {backend : Backend σ} {dir : String} {options : BmcOptions} {model : String}
  {target : Target} {times : Set Time} {s s' : BmcSearch} {es : List Event}

/-- A run at a point of a search gets an answer that settles its claim. -/
theorem Complete.settles (hcomplete : Complete backend dir options model target times)
    (hknown : ∀ k ∈ s.finalTime, k ∈ times) {answer : Except SolverError BmcAnswer}
    {before after : Tree × σ}
    (hholds : (Exchange.run (claimModel model (s.claim target)) options.bmcLength s.timeout
      answer).Holds backend dir before after) :
    ∃ a, answer = .ok a ∧ a.Settles times s.finalTime := by
  obtain ⟨hreads, hends⟩ := hholds
  obtain ⟨a, after', hsettles, hends'⟩ := hcomplete s.finalTime s.timeout before hknown hreads
  exact ⟨a, (hends.unique hends').1, hsettles⟩

/-- A completion that is accepted is one of the times. -/
theorem Accepts.mem_of_settles {answer : BmcAnswer} {time : Time} {trace : List String}
    {elapsed : Duration} (h : s.Accepts target answer time trace elapsed)
    (hsettles : answer.Settles times s.finalTime) : time ∈ times := by
  obtain ⟨hcompletion, -, -⟩ := judge_eq_refuted_iff.1 h.refuted
  cases hsettles with
  | refuted hcompletion' htime =>
      obtain rfl := Option.some.inj (hcompletion.symm.trans hcompletion')
      exact htime
  | unrefuted hnone =>
      rw [hcompletion] at hnone
      simp at hnone

theorem Searching.mem_times (h : Searching options model target s es s')
    (hcomplete : Complete backend dir options model target times)
    (hbacked : ∀ x ∈ Event.exchanges es, ∃ before after, x.Holds backend dir before after)
    (hs : ∀ k ∈ s.finalTime, k ∈ times) : ∀ k ∈ s'.finalTime, k ∈ times := by
  -- each accepted completion is the known one of the next claim
  induction h with
  | nil => exact hs
  | @cons s next s' answer time trace elapsed es haccepts hmissed hextended _ ih =>
      rw [Event.exchanges_append] at hbacked
      obtain ⟨before, after, hholds⟩ := hbacked _ (List.mem_append_left _ List.mem_cons_self)
      obtain ⟨_, ⟨⟩, hsettles⟩ := hcomplete.settles hs hholds
      refine ih (fun x hx => hbacked x (List.mem_append_right _ hx)) ?_
      intro k hk
      obtain rfl : time = k :=
        Option.some.inj ((finalTime_of_extendTimeout hextended).symm.trans hk)
      exact haccepts.mem_of_settles hsettles

/-- The times that refutations took were reported by the model checker. -/
theorem Searching.mem_solveTimes (h : Searching options model target s es s') {d : Duration}
    (hd : d ∈ s'.solveTimes) :
    d ∈ s.solveTimes ∨ ∃ text timeout answer, answer.elapsed = some d ∧
      .run text options.bmcLength timeout (.ok answer) ∈ Event.exchanges es := by
  induction h with
  | nil => exact .inl hd
  | @cons s next s' answer time trace elapsed es haccepts hmissed hextended _ ih =>
      rw [Event.exchanges_append]
      rcases ih hd with hnext | ⟨text, timeout, answer', helapsed, hmem⟩
      · rw [solveTimes_of_extendTimeout hextended] at hnext
        rcases List.mem_append.1 hnext with hbefore | hlast
        · exact .inl hbefore
        · obtain rfl := List.mem_singleton.1 hlast
          obtain ⟨-, -, helapsed⟩ := judge_eq_refuted_iff.1 haccepts.refuted
          exact .inr ⟨_, _, answer, helapsed, List.mem_append_left _ List.mem_cons_self⟩
      · exact .inr ⟨text, timeout, answer', helapsed, List.mem_append_right _ hmem⟩

/-- If no refutation of the last claim is acceptable, no time is earlier than the known one. -/
theorem known_of_settles {answer : BmcAnswer} (hsettles : answer.Settles times s.finalTime)
    (hnone : ∀ time trace elapsed, ¬ s.Accepts target answer time trace elapsed) :
    ∀ time ∈ times, ∃ k ∈ s.finalTime, k ≤ time := by
  cases hsettles with
  | refuted hcompletion htime hearlier =>
      exact absurd hearlier (not_earlier_of_refused hnone hcompletion)
  | unrefuted hnone' hall => exact hall

theorem exists_extendTimeout {factor : Float}
    (h : ∀ d ∈ s.solveTimes, ∃ next, d.scale factor = .ok next) :
    ∃ next, s.extendTimeout factor = .ok next := by
  unfold extendTimeout
  cases hlongest : Duration.longest? s.solveTimes with
  | none => exact ⟨s, rfl⟩
  | some longest =>
      obtain ⟨next, hnext⟩ := h longest (Duration.mem_of_longest? hlongest)
      exact ⟨_, except_bind_eq_ok.2 ⟨next, hnext, rfl⟩⟩

/-- The durations of all refutations up to a point of a search can be extended. -/
theorem Extensible.searching (hextensible : Extensible backend options)
    (h : Searching options model target (start options.baseTimeout) es s)
    (hbacked : ∀ x ∈ Event.exchanges es, ∃ before after, x.Holds backend dir before after) :
    ∀ d ∈ s.solveTimes, ∃ next, d.scale options.timeoutFactor = .ok next := by
  intro d hd
  rcases h.mem_solveTimes hd with hstart | ⟨text, timeout, answer, helapsed, hmem⟩
  · simp [start] at hstart
  · obtain ⟨before, after, -, hends⟩ := hbacked _ hmem
    exact hextensible _ _ _ _ _ _ _ hends helapsed

end Points

/-! ## Whole searches -/

section Search

variable {backend : Backend σ} {dir : String} {options : BmcOptions} {model : String}
  {target : Target} {times : Set Time} {es : List Event} {w w' : World σ}
  {r : Except (Stop CheckError) BmcSearch}

/-- A search that a complete model checker answers comes to a result. -/
theorem SearchEvents.finds
    (h : SearchEvents dir options model target (start options.baseTimeout) es r)
    (hcomplete : Complete backend dir options model target times)
    (hextensible : Extensible backend options)
    (hbacked : ∀ x ∈ Event.exchanges es, ∃ before after, x.Holds backend dir before after)
    (hwritten : ∀ path e, r ≠ .error (.error (.artifact path e))) :
    ∃ found, r = .ok found ∧ Finds times target.deadline found := by
  obtain ⟨last, es₁, es₂, rfl, hsearching, hends⟩ := h
  rw [Event.exchanges_append] at hbacked
  have hfirst : ∀ x ∈ Event.exchanges es₁, ∃ before after, x.Holds backend dir before after :=
    fun x hx => hbacked x (List.mem_append_left _ hx)
  have hmem : ∀ k ∈ last.finalTime, k ∈ times := by
    refine hsearching.mem_times hcomplete hfirst ?_
    rintro k ⟨⟩
  -- all that was accepted so far is one of the times, so the claim of the last run is settled too
  have hsettled {answer : Except SolverError BmcAnswer}
      (hrun : es₂ = last.runEvents options model target answer) :
      (∃ a, answer = .ok a ∧ a.Settles times last.finalTime) ∧
        ∃ before after, Ends (backend.runBmc (Artifact.bmc.pathIn dir) options.bmcLength
          last.timeout) before answer after := by
    subst hrun
    obtain ⟨before, after, hholds⟩ := hbacked _ (List.mem_append_right _ List.mem_cons_self)
    exact ⟨hcomplete.settles hmem hholds, before, after, hholds.2⟩
  cases hends with
  | unwritten e => exact absurd rfl (hwritten _ e)
  | unanswered e =>
      obtain ⟨⟨a, ha, -⟩, -⟩ := hsettled rfl
      simp at ha
  | exhausted hnone =>
      obtain ⟨⟨a, ha, hsettles⟩, -⟩ := hsettled rfl
      obtain rfl := Except.ok.inj ha
      exact ⟨last, rfl, hmem, fun _ => known_of_settles hsettles hnone⟩
  | @met answer time trace elapsed haccepts hmet =>
      obtain ⟨⟨a, ha, hsettles⟩, -⟩ := hsettled rfl
      obtain rfl := Except.ok.inj ha
      refine ⟨_, rfl, ?_, fun hmissed => ?_⟩
      · rintro k ⟨⟩
        exact haccepts.mem_of_settles hsettles
      · rw [meets_accept hmet] at hmissed
        simp at hmissed
  | @overlong answer time trace elapsed f haccepts hmissed hfault =>
      obtain ⟨-, before, after, hends⟩ := hsettled rfl
      obtain ⟨-, -, helapsed⟩ := judge_eq_refuted_iff.1 haccepts.refuted
      have hextends : ∀ d ∈ (last.accept time trace elapsed).solveTimes,
          ∃ next, d.scale options.timeoutFactor = .ok next := by
        intro d hd
        rcases List.mem_append.1 hd with hbefore | hlast
        · exact hextensible.searching hsearching hfirst d hbefore
        · obtain rfl := List.mem_singleton.1 hlast
          exact hextensible _ _ _ _ _ _ _ hends helapsed
      obtain ⟨next, hnext⟩ := exists_extendTimeout hextends
      exact absurd (hnext.symm.trans hfault) (by simp)

theorem search_finds (combiner : Combiner σ)
    (h : Ends (search backend dir options model target) w r w')
    (hcomplete : Complete backend dir options model target times)
    (hextensible : Extensible backend options)
    (hwritten : ∀ path e, r ≠ .error (.error (.artifact path e))) :
    ∃ found es, r = .ok found ∧ Finds times target.deadline found ∧
      SearchEvents dir options model target (start options.baseTimeout) es (.ok found) ∧
        Course backend combiner dir w es w' := by
  obtain ⟨es, hevents, hcourse⟩ := search_course combiner h
  obtain ⟨found, rfl, hfinds⟩ :=
    hevents.finds hcomplete hextensible (fun x hx => hcourse.holds_of_mem hx) hwritten
  exact ⟨found, es, rfl, hfinds, hevents, hcourse⟩

end Search

end BmcSearch

end Punctual
