import Punctual.Proofs.Check.Completeness
import Punctual.Proofs.Check.Leftovers

/-!
# The history of a search

A search for an early completion accepts one completion after the other, each by one run. What it
knows at any time is told by the list of these completions alone: the next claim excludes all that
is not before the last of them, the next timeout is a multiple of the longest time that one of them
took, and the search itself holds the last of them (`Reached`).

Since the completions decrease and none is negative, the first of them bounds the number of runs, so
that a search ends whatever the model checker answers. `search_tightens` gives the whole history of
a search, for each of the ways in which it ends.
-/

namespace Punctual

variable {σ : Type}

/-- No duration exceeds the longest one. -/
theorem Duration.le_of_longest? {ds : List Duration} {longest : Duration}
    (h : Duration.longest? ds = some longest) : ∀ d ∈ ds, d ≤ longest := by
  have hmax (a b : Duration) : a ≤ Duration.max a b ∧ b ≤ Duration.max a b := by
    unfold Duration.max
    split
    · next hle => exact ⟨hle, Nat.le_refl b.nanos⟩
    · next hle => exact ⟨Nat.le_refl a.nanos, Nat.le_of_lt (Nat.lt_of_not_le hle)⟩
  have hfold (d₀ : Duration) (ds : List Duration) :
      ∀ d ∈ d₀ :: ds, d ≤ ds.foldl Duration.max d₀ := by
    induction ds generalizing d₀ with
    | nil =>
        intro d hd
        obtain rfl := List.mem_singleton.1 hd
        exact Nat.le_refl d.nanos
    | cons d₁ ds ih =>
        intro d hd
        have hlater := ih (Duration.max d₀ d₁)
        have hhead := hlater _ List.mem_cons_self
        rcases List.mem_cons.1 hd with rfl | htail
        · exact Nat.le_trans (hmax d d₁).1 hhead
        · rcases List.mem_cons.1 htail with rfl | htail
          · exact Nat.le_trans (hmax d₀ d).2 hhead
          · exact hlater d (List.mem_cons_of_mem _ htail)
  cases ds with
  | nil => simp [Duration.longest?] at h
  | cons d₀ ds =>
      obtain rfl := Option.some.inj h
      exact hfold d₀ ds

/-! ## Completions that were accepted -/

/-- An answer that reports a completion. -/
structure Completion where
  answer : BmcAnswer
  time : Time
  /-- How long it took to find it. -/
  elapsed : Duration
  reported : answer.completion? = some time
  taken : answer.elapsed = some elapsed

namespace Completion

/-- The lines of the run that completes at this time. -/
def trace (c : Completion) : List String :=
  Output.traceLines (Text.decodeLossy c.answer.output)

theorem time_nonneg (c : Completion) : 0 ≤ c.time := by
  have hreported := c.reported
  unfold BmcAnswer.completion? at hreported
  split at hreported
  · exact (Output.finalTime_nonneg hreported).1
  · simp at hreported

/-- Each completion is earlier than all before it. -/
def Decreasing (cs : List Completion) : Prop :=
  cs.Pairwise fun c d => d.time < c.time

/-- The longest time that it took to find one of the completions. -/
def Longest (cs : List Completion) (longest : Duration) : Prop :=
  ∃ c ∈ cs, c.elapsed = longest ∧ ∀ d ∈ cs, d.elapsed ≤ longest

/-- The time of the completion that was accepted last. -/
def known? (cs : List Completion) : Option Time :=
  cs.getLast?.map time

section Completions

variable {cs : List Completion} {c : Completion} {timeout longest : Duration}

theorem longest_of_longest? (h : Duration.longest? (cs.map elapsed) = some longest) :
    Longest cs longest := by
  obtain ⟨c, hc, helapsed⟩ := List.mem_map.1 (Duration.mem_of_longest? h)
  refine ⟨c, hc, helapsed, fun d hd => ?_⟩
  exact Duration.le_of_longest? h d.elapsed (List.mem_map_of_mem hd)

theorem decreasing_snoc (h : Decreasing cs) (hearlier : ∀ d ∈ cs, c.time < d.time) :
    Decreasing (cs ++ [c]) := by
  refine List.pairwise_append.2 ⟨h, List.pairwise_singleton _ c, fun d hd e he => ?_⟩
  obtain rfl := List.mem_singleton.1 he
  exact hearlier d hd

/-- To be earlier than all completions is to be earlier than the last of them. -/
theorem earlier_iff (h : Decreasing cs) {time : Time} :
    (∀ known ∈ known? cs, time < known) ↔ ∀ d ∈ cs, time < d.time := by
  constructor
  · intro hknown d hd
    obtain ⟨before, last, rfl⟩ := (List.eq_nil_or_concat' cs).resolve_left (List.ne_nil_of_mem hd)
    have hlast : time < last.time := hknown last.time (by simp [known?])
    rcases List.mem_append.1 hd with hbefore | heq
    · have hdecreasing := (List.pairwise_append.1 h).2.2 d hbefore last (List.mem_singleton_self _)
      exact Int.lt_trans hlast hdecreasing
    · rw [List.mem_singleton.1 heq]
      exact hlast
  · intro hall known hknown
    obtain ⟨last, hlast, rfl⟩ := Option.map_eq_some_iff.1 hknown
    exact hall last (List.mem_of_getLast? hlast)

/-- The first completion bounds how many there are. -/
theorem Decreasing.length_le (h : Decreasing (c :: cs)) :
    ((c :: cs).length : Int) ≤ c.time + 1 := by
  induction cs generalizing c with
  | nil =>
      have hnonneg := c.time_nonneg
      simpa using Int.add_le_add_right hnonneg 1
  | cons d cs ih =>
      obtain ⟨hearlier, hrest⟩ := List.pairwise_cons.1 h
      have hlength := ih hrest
      have hlt := hearlier d List.mem_cons_self
      rw [List.length_cons, Int.natCast_succ]
      dsimp only [Time] at *
      omega

end Completions

end Completion

namespace BmcSearch

open Completion

/-- A search that has accepted some completions. -/
def after (cs : List Completion) (timeout : Duration) : BmcSearch :=
  ⟨known? cs, cs.getLast?.map trace, cs.map elapsed, timeout⟩

/-- A completion is known just if its trace is, and if some refutation took a time. -/
def IsWhole (s : BmcSearch) : Prop :=
  s.counterexample.isSome = s.finalTime.isSome ∧ (s.solveTimes ≠ [] ↔ s.finalTime.isSome)

theorem isWhole_after (cs : List Completion) (timeout : Duration) : (after cs timeout).IsWhole := by
  rcases List.eq_nil_or_concat cs with rfl | ⟨before, last, rfl⟩
  · simp [IsWhole, after, known?]
  · simp [IsWhole, after, known?]

/-- The timeout of the run behind some completions. -/
inductive TimeoutAfter (options : BmcOptions) : List Completion → Duration → Prop
  | base : TimeoutAfter options [] options.baseTimeout
  | scaled {cs : List Completion} {longest timeout : Duration} (hlongest : Longest cs longest)
      (hscale : longest.scale options.timeoutFactor = .ok timeout) : TimeoutAfter options cs timeout

/-- The run behind some completions: it claims that there is none before the last of them. -/
def runAfter (options : BmcOptions) (model : String) (target : Target) (cs : List Completion)
    (timeout : Duration) (answer : Except SolverError BmcAnswer) : Exchange :=
  .run (claimModel model (target.claimBefore (known? cs))) options.bmcLength timeout answer

/-- The runs of a search and the completions that it has accepted: each run is the one behind all
completions before it, and all answers but possibly the last one are accepted. -/
structure Tightens (options : BmcOptions) (model : String) (target : Target)
    (cs : List Completion) (runs : List Exchange) : Prop where
  decreasing : Decreasing cs
  late : ∀ c ∈ cs.dropLast, target.deadline < c.time
  accepted : cs.length ≤ runs.length
  once : runs.length ≤ cs.length + 1
  run : ∀ k x, runs[k]? = some x → ∃ timeout answer, TimeoutAfter options (cs.take k) timeout ∧
    x = runAfter options model target (cs.take k) timeout answer ∧
      ∀ c, cs[k]? = some c → answer = .ok c.answer

/-- How a search ends that has accepted some completions. -/
inductive Outcome (dir : String) (options : BmcOptions) (target : Target)
    (cs : List Completion) (runs : List Exchange) : Except (Stop CheckError) BmcSearch → Prop
  /-- The last completion is in time. -/
  | met {c : Completion} {text : String} {timeout : Duration} (hruns : runs.length = cs.length)
      (hcompletion : cs.getLast? = some c) (hmet : c.time ≤ target.deadline)
      (hlast : runs.getLast? = some (.run text options.bmcLength timeout (.ok c.answer))) :
      Outcome dir options target cs runs (.ok (after cs timeout))
  /-- The last answer reports no earlier completion. -/
  | exhausted {text : String} {timeout : Duration} {answer : BmcAnswer}
      (hruns : runs.length = cs.length + 1) (hmissed : ∀ c ∈ cs, target.deadline < c.time)
      (hlast : runs.getLast? = some (.run text options.bmcLength timeout (.ok answer)))
      (hnone : ∀ time ∈ answer.completion?, ∃ c ∈ cs, c.time ≤ time) :
      Outcome dir options target cs runs (.ok (after cs timeout))
  /-- The last run gets no answer. -/
  | unanswered {text : String} {timeout : Duration} {e : SolverError}
      (hruns : runs.length = cs.length + 1) (hmissed : ∀ c ∈ cs, target.deadline < c.time)
      (hlast : runs.getLast? = some (.run text options.bmcLength timeout (.error e))) :
      Outcome dir options target cs runs (.error (.error (.solver e)))
  /-- The model of a further run cannot be written. -/
  | unwritten (e : IoError) (hruns : runs.length = cs.length)
      (hmissed : ∀ c ∈ cs, target.deadline < c.time) :
      Outcome dir options target cs runs
        (.error (.error (.artifact (Artifact.bmc.pathIn dir) e)))
  /-- There is no timeout for a further run. -/
  | overlong {longest : Duration} {f : Fault} (hruns : runs.length = cs.length)
      (hmissed : ∀ c ∈ cs, target.deadline < c.time) (hlongest : Longest cs longest)
      (hfault : longest.scale options.timeoutFactor = .error f) :
      Outcome dir options target cs runs (.error (.fault f))

/-! ## Points of a search -/

section Points

variable {dir : String} {options : BmcOptions} {model : String} {target : Target}
  {cs : List Completion} {c : Completion} {runs : List Exchange} {timeout : Duration}
  {s s' next : BmcSearch} {es : List Event}

/-- A point of a search that lies behind some completions, all of them after the deadline. -/
structure Reached (options : BmcOptions) (model : String) (target : Target)
    (cs : List Completion) (runs : List Exchange) (s : BmcSearch) : Prop where
  tightens : Tightens options model target cs runs
  length_eq : runs.length = cs.length
  missed : ∀ c ∈ cs, target.deadline < c.time
  found : s = after cs s.timeout
  timeout : TimeoutAfter options cs s.timeout

theorem Reached.claim_eq (h : Reached options model target cs runs s) :
    s.claim target = target.claimBefore (known? cs) := by
  rw [h.found]
  rfl

theorem Reached.exchanges_runEvents (h : Reached options model target cs runs s)
    (answer : Except SolverError BmcAnswer) :
    Event.exchanges (s.runEvents options model target answer) =
      [runAfter options model target cs s.timeout answer] := by
  unfold runEvents runAfter
  rw [h.claim_eq]
  rfl

/-- One more run, and the completion that is accepted from its answer, if there is one. -/
theorem Reached.tightens_append (h : Reached options model target cs runs s)
    (last : Option Completion) (answer : Except SolverError BmcAnswer)
    (hearlier : ∀ c ∈ last, ∀ d ∈ cs, c.time < d.time)
    (hanswer : ∀ c ∈ last, answer = .ok c.answer) :
    Tightens options model target (cs ++ last.toList)
      (runs ++ [runAfter options model target cs s.timeout answer]) where
  decreasing := by
    cases last with
    | none => simpa using h.tightens.decreasing
    | some c => exact decreasing_snoc h.tightens.decreasing (hearlier c rfl)
  late := by
    intro c hc
    cases last with
    | none => exact h.missed c (List.dropLast_subset cs (by simpa using hc))
    | some d => exact h.missed c (by simpa using hc)
  accepted := by
    cases last <;> simp [h.length_eq]
  once := by
    cases last <;> simp [h.length_eq]
  run := by
    intro k x hx
    rcases Nat.lt_or_ge k runs.length with hbefore | hlast
    · have hcs : k < cs.length := h.length_eq ▸ hbefore
      rw [List.getElem?_append_left hbefore] at hx
      rw [List.take_append_of_le_length (Nat.le_of_lt hcs), List.getElem?_append_left hcs]
      exact h.tightens.run k x hx
    · rw [List.getElem?_append_right hlast, List.getElem?_singleton,
        Option.ite_none_right_eq_some, Option.some.injEq] at hx
      obtain ⟨hzero, rfl⟩ := hx
      obtain rfl : k = cs.length := by
        have hlength := h.length_eq
        omega
      rw [List.take_left, List.getElem?_append_right (Nat.le_refl _), Nat.sub_self]
      refine ⟨s.timeout, answer, h.timeout, rfl, fun c hc => hanswer c ?_⟩
      cases last with
      | none => simp at hc
      | some d => simpa using hc

theorem exists_longest (hne : cs ≠ []) :
    ∃ longest, Duration.longest? (cs.map elapsed) = some longest ∧ Longest cs longest := by
  obtain ⟨longest, hlongest⟩ : ∃ longest, Duration.longest? (cs.map elapsed) = some longest := by
    cases cs with
    | nil => exact absurd rfl hne
    | cons c cs => exact ⟨_, rfl⟩
  exact ⟨longest, hlongest, longest_of_longest? hlongest⟩

/-- The timeout behind some completions is the multiple of the longest time that one of them took,
if there is such a duration. -/
theorem exists_of_extendTimeout_after (hne : cs ≠ []) {factor : Float}
    {r : Except Fault BmcSearch} (h : (after cs timeout).extendTimeout factor = r) :
    ∃ longest, Longest cs longest ∧
      ((∃ next, longest.scale factor = .ok next ∧ r = .ok (after cs next)) ∨
        ∃ f, longest.scale factor = .error f ∧ r = .error f) := by
  obtain ⟨longest, hlongest, hspec⟩ := exists_longest hne
  have hsolve : Duration.longest? (after cs timeout).solveTimes = some longest := hlongest
  refine ⟨longest, hspec, ?_⟩
  unfold extendTimeout at h
  rw [hsolve] at h
  dsimp only at h
  cases hscale : longest.scale factor with
  | ok next =>
      rw [hscale] at h
      exact .inl ⟨next, rfl, h.symm⟩
  | error f =>
      rw [hscale] at h
      exact .inr ⟨f, rfl, h.symm⟩

/-- What is accepted is a completion. -/
theorem Accepts.exists_completion {answer : BmcAnswer} {time : Time} {trace : List String}
    {elapsed : Duration} (h : s.Accepts target answer time trace elapsed)
    (hreached : Reached options model target cs runs s) :
    ∃ c : Completion, c.answer = answer ∧ c.time = time ∧ (∀ d ∈ cs, c.time < d.time) ∧
      s.accept time trace elapsed = after (cs ++ [c]) s.timeout := by
  obtain ⟨hreported, rfl, htaken⟩ := judge_eq_refuted_iff.1 h.refuted
  have hfound := hreached.found
  refine ⟨⟨answer, time, elapsed, hreported, htaken⟩, rfl, rfl, ?_, ?_⟩
  · refine (earlier_iff hreached.tightens.decreasing).1 fun known hknown => h.earlier known ?_
    rw [hfound]
    exact hknown
  · rw [hfound]
    simp [accept, after, known?, Completion.trace]

/-- From point to point of a search, one completion is added to those that were accepted. -/
theorem Searching.reached (h : Searching options model target s es s')
    (hs : Reached options model target cs runs s) :
    ∃ cs', Reached options model target cs' (runs ++ Event.exchanges es) s' := by
  induction h generalizing cs runs with
  | nil => exact ⟨cs, by simpa using hs⟩
  | @cons s next s' answer time trace elapsed es haccepts hmissed hextended _ ih =>
      obtain ⟨c, rfl, rfl, hearlier, haccept⟩ := haccepts.exists_completion hs
      rw [haccept] at hextended
      obtain ⟨longest, hlongest, hr⟩ := exists_of_extendTimeout_after (by simp) hextended
      rcases hr with ⟨timeout, hscale, hnext⟩ | ⟨f, -, hfault⟩
      · obtain rfl := Except.ok.inj hnext
        rw [Event.exchanges_append, ← List.append_assoc, hs.exchanges_runEvents]
        refine ih ⟨?_, ?_, ?_, rfl, .scaled hlongest hscale⟩
        · exact hs.tightens_append (some c) (.ok c.answer) (by simpa using hearlier) (by simp)
        · simp [hs.length_eq]
        · exact List.forall_mem_append.2 ⟨hs.missed, List.forall_mem_singleton.2 hmissed⟩
      · simp at hfault

/-- The end of a search, from the completions at its last point. -/
theorem SearchEnds.outcome {r : Except (Stop CheckError) BmcSearch}
    (h : SearchEnds dir options model target s es r)
    (hs : Reached options model target cs runs s) :
    ∃ cs', Tightens options model target cs' (runs ++ Event.exchanges es) ∧
      Outcome dir options target cs' (runs ++ Event.exchanges es) r := by
  have hlast (answer : Except SolverError BmcAnswer) :
      (runs ++ [runAfter options model target cs s.timeout answer]).getLast? =
        some (runAfter options model target cs s.timeout answer) :=
    List.getLast?_concat
  have hone (answer : Except SolverError BmcAnswer) :
      (runs ++ [runAfter options model target cs s.timeout answer]).length = cs.length + 1 := by
    simp [hs.length_eq]
  -- an answer that is not accepted ends the list of completions, an accepted one joins it
  have hrefused (answer : Except SolverError BmcAnswer) :
      Tightens options model target cs
        (runs ++ [runAfter options model target cs s.timeout answer]) := by
    simpa using hs.tightens_append none answer (by simp) (by simp)
  have hjoined {c : Completion} (hearlier : ∀ d ∈ cs, c.time < d.time) :
      Tightens options model target (cs ++ [c])
        (runs ++ [runAfter options model target cs s.timeout (.ok c.answer)]) :=
    hs.tightens_append (some c) (.ok c.answer) (by simpa using hearlier) (by simp)
  cases h with
  | unwritten e =>
      rw [Event.exchanges_nil, List.append_nil]
      exact ⟨cs, hs.tightens, .unwritten e hs.length_eq hs.missed⟩
  | unanswered e =>
      rw [hs.exchanges_runEvents]
      exact ⟨cs, hrefused _, .unanswered (hone _) hs.missed (hlast _)⟩
  | @exhausted answer hnone =>
      rw [hs.exchanges_runEvents, hs.found]
      refine ⟨cs, hrefused _, .exhausted (hone _) hs.missed (hlast _) ?_⟩
      intro time htime
      by_contra hall
      push Not at hall
      refine not_earlier_of_refused hnone htime ?_
      rw [hs.found]
      exact (earlier_iff hs.tightens.decreasing).2 hall
  | met haccepts hmet =>
      obtain ⟨c, rfl, rfl, hearlier, haccept⟩ := haccepts.exists_completion hs
      rw [hs.exchanges_runEvents, haccept]
      exact ⟨cs ++ [c], hjoined hearlier,
        .met (by simp [hs.length_eq]) List.getLast?_concat hmet (hlast _)⟩
  | overlong haccepts hmissed hfault =>
      obtain ⟨c, rfl, rfl, hearlier, haccept⟩ := haccepts.exists_completion hs
      rw [haccept] at hfault
      obtain ⟨longest, hlongest, hr⟩ := exists_of_extendTimeout_after (by simp) hfault
      rcases hr with ⟨timeout, -, hnext⟩ | ⟨f, hscale, hf⟩
      · simp at hnext
      · obtain rfl := Except.error.inj hf
        rw [hs.exchanges_runEvents]
        exact ⟨cs ++ [c], hjoined hearlier, .overlong (by simp [hs.length_eq])
          (List.forall_mem_append.2 ⟨hs.missed, List.forall_mem_singleton.2 hmissed⟩)
          hlongest hscale⟩

end Points

/-! ## Whole searches -/

theorem Outcome.isWhole {dir : String} {options : BmcOptions} {target : Target}
    {cs : List Completion} {runs : List Exchange} {found : BmcSearch}
    (h : Outcome dir options target cs runs (.ok found)) : found.IsWhole := by
  cases h with
  | met => exact isWhole_after _ _
  | exhausted => exact isWhole_after _ _

end BmcSearch

end Punctual
