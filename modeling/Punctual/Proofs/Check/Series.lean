import Punctual.Proofs.Check.Agreement

/-!
# Checks one after another

Checks that write to one directory share its files. Each check marks the run of an earlier one as not
known, but no check takes the record of a delay away: the file of the delay holds what the last
check that recorded a delay has left there, whatever later checks find (`delay_after_series`). Only
while no check of the series has recorded a delay, and none was there before, does the file tell
whether the latest task is infeasible.
-/

namespace Punctual

variable {σ : Type}

/-- The task cannot meet its deadline. -/
def Verdict.isInfeasible : Verdict → Bool
  | .infeasible .. => true
  | _ => false

namespace Checker

open Check

/-! ## Records of one check -/

/-- A check of a task writes nothing but records of its delay to the file of the delay, and if it
comes to a verdict, it writes one exactly if the task is infeasible. -/
structure RecordsDelay (r : Recorder) (es : List Event)
    (result : Except (Stop CheckError) Verdict) : Prop where
  entries : ∀ text ∈ Event.texts .delay es, ∃ delay, text = (r.entry delay).text
  verdict : ∀ v, result = .ok v → (Event.texts .delay es = [] ↔ v.isInfeasible = false)

section Records

variable {c : Checker σ} {r : Recorder} {g : Target} {t : Task} {asked : Answers}
  {es es' : List Event} {found : BmcSearch} {modelPath : String}
  {result : Except (Stop CheckError) Verdict} {stop : Stop CheckError}

theorem recordsDelay_of_nothing (hnone : Event.texts .delay es = [])
    (hresult : ∀ v, result = .ok v → v.isInfeasible = false) : RecordsDelay r es result := by
  refine ⟨by simp [hnone], ?_⟩
  intro v hv
  exact iff_of_true hnone (hresult v hv)

theorem entries_of_recorded (h : Recorded r g asked es) :
    ∀ text ∈ Event.texts .delay es, ∃ delay, text = (r.entry delay).text := by
  induction h with
  | nil => simp
  | feasible path _ ih => exact ih
  | @infeasible deadline delay asked es hdelay _ ih =>
      intro text htext
      have hcons : text ∈ (r.entry delay).text :: Event.texts .delay es := htext
      rcases List.mem_cons.1 hcons with rfl | htail
      · exact ⟨delay, rfl⟩
      · exact ih text htail

/-- A session whose first answer is that the deadline is infeasible records a delay. -/
theorem recordsDelay_of_recorded {deadline : Time} (h : Recorded r g ((deadline, false) :: asked) es)
    (hresult : ∀ v, result = .ok v → v.isInfeasible = true) : RecordsDelay r es result := by
  refine ⟨entries_of_recorded h, ?_⟩
  intro v hv
  have hwrote : Event.texts .delay es ≠ [] := by
    cases h with
    | infeasible hdelay hrest => exact List.cons_ne_nil _ _
  exact iff_of_false hwrote (by simp [hresult v hv])

theorem Decided.recordsDelay (h : Decided c r g t es result) : RecordsDelay r es result := by
  cases h with
  | undecided hstopped => exact recordsDelay_of_nothing (hstopped.texts .delay) (by simp)
  | feasible path =>
      refine recordsDelay_of_nothing rfl ?_
      rintro v ⟨⟩
      rfl
  | unwritten path e => exact recordsDelay_of_nothing rfl (by simp)
  | assumed hassumed hrecorded hdelay =>
      refine recordsDelay_of_recorded hrecorded ?_
      rintro v ⟨⟩
      rfl
  | delayed hnarrowing hupper hdelay =>
      refine recordsDelay_of_recorded hnarrowing.recorded ?_
      rintro v ⟨⟩
      rfl
  | hopeless hnarrowing hlower =>
      refine recordsDelay_of_recorded hnarrowing.recorded ?_
      rintro v ⟨⟩
      rfl
  | broken hnarrowing hbracket hstopped =>
      refine ⟨?_, by simp⟩
      rw [Event.texts_append, hstopped.texts, List.append_nil]
      exact entries_of_recorded hnarrowing.recorded
  | wide hnarrowing hupper hgap => exact recordsDelay_of_recorded hnarrowing.recorded (by simp)

theorem Inconclusive.recordsDelay (h : Inconclusive c r g t found modelPath es result) :
    RecordsDelay r es result := by
  cases h with
  | unknown hfault => exact recordsDelay_of_nothing rfl (by simp)
  | @heuristic time lower delay htime hlower hdelay =>
      have htexts : Event.texts .delay [.wrote .delay (r.entry delay).text] =
          [(r.entry delay).text] := rfl
      refine ⟨?_, ?_⟩
      · rw [htexts]
        exact List.forall_mem_singleton.2 ⟨delay, rfl⟩
      · rintro v ⟨⟩
        rw [htexts]
        exact iff_of_false (List.cons_ne_nil _ _) (by simp [Verdict.isInfeasible])
  | overlong htime hfault => exact recordsDelay_of_nothing rfl (by simp)
  | unwritten e htime => exact recordsDelay_of_nothing rfl (by simp)
  | undetermined htime hfallback =>
      refine recordsDelay_of_nothing rfl ?_
      rintro v ⟨⟩
      rfl
  | unopened e htime hfallback => exact recordsDelay_of_nothing rfl (by simp)
  | decided htime hfallback hdecided =>
      have hrecords := hdecided.recordsDelay
      exact ⟨hrecords.entries, hrecords.verdict⟩

/-- Nothing before a search without success concerns the file of the delay. -/
theorem TaskCourse.recordsDelay (h : TaskCourse c r g t es result) : RecordsDelay r es result := by
  cases h with
  | unprepared hprep =>
      exact recordsDelay_of_nothing (texts_of_preparations hprep (.inr rfl)) (by simp)
  | unsearched hprep hsearch =>
      exact recordsDelay_of_nothing (texts_of_searched hprep hsearch (.inr rfl)) (by simp)
  | @met es es₁ model found trace hprep hsearch hmeets htrace =>
      refine recordsDelay_of_nothing ?_ ?_
      · rw [Event.texts_append, texts_of_searched hprep hsearch (.inr rfl),
          Event.texts_wrote_of_ne (by simp)]
        rfl
      · rintro v ⟨⟩
        rfl
  | unwritten e hprep hsearch hmeets =>
      exact recordsDelay_of_nothing (texts_of_searched hprep hsearch (.inr rfl)) (by simp)
  | @inconclusive es es₁ es₂ model modelPath found result hprep hsearch hmissed hinconclusive =>
      have htexts : Event.texts .delay (es ++ es₁ ++ es₂) = Event.texts .delay es₂ := by
        rw [Event.texts_append, texts_of_searched hprep hsearch (.inr rfl), List.nil_append]
      have hrecords := hinconclusive.recordsDelay
      exact ⟨htexts ▸ hrecords.entries, fun v hv => htexts ▸ hrecords.verdict v hv⟩

end Records

/-! ## Checks of either kind -/

/-- What a check is about: a schedule and a state, or the files that hold them. -/
inductive Subject
  | given (s : Schedule) (state : PlantState)
  | files (schedulePath statePath : String)

/-- The subject is a schedule in a state, read from files if it names them. -/
def Subject.Gives (tree : Tree) (s : Schedule) (state : PlantState) : Subject → Prop
  | .given s' state' => s' = s ∧ state' = state
  | .files schedulePath statePath =>
    tree.readInput schedulePath Schedule.read = .ok s ∧
      tree.readInput statePath PlantState.read = .ok state

/-- Checks a subject. -/
def checkSubject (c : Checker σ) : Subject → Check σ Verdict
  | .given s state => c.check s state
  | .files schedulePath statePath => c.checkFiles schedulePath statePath

/-- The events of a check once the old run is marked as not known: there are none if there is no
task to check, and otherwise they are those of the check of a task. -/
inductive SubjectCourse (c : Checker σ) (tree : Tree) (subject : Subject) :
    List Event → Except (Stop CheckError) Verdict → Prop
  | none {result : Except (Stop CheckError) Verdict}
      (hresult : ∀ v, result = .ok v → v = .noActiveTask) :
      SubjectCourse c tree subject [] result
  | task {s : Schedule} {state : PlantState} {earlier : List Task} {t : Task} {es : List Event}
      {result : Except (Stop CheckError) Verdict} (hgives : subject.Gives tree s state)
      (hselects : s.Selects state.time c.options.keyUnit earlier t)
      (htask : TaskCourse c (.ofTask c.dir s state t) (Schedule.occurrence earlier t) t es
        result) :
      SubjectCourse c tree subject es result

section Subject

variable {c : Checker σ} {subject : Subject} {s : Schedule} {state : PlantState} {tree : Tree}
  {w w' : World σ} {es : List Event} {result : Except (Stop CheckError) Verdict}

theorem CheckCourse.subjectCourse (h : CheckCourse c s state es result)
    (hgives : subject.Gives tree s state) : SubjectCourse c tree subject es result := by
  cases h with
  | idle hnone =>
      refine .none ?_
      rintro v ⟨⟩
      rfl
  | task hselects htask => exact .task hgives hselects htask

theorem checkSubject_course (h : Ends (c.checkSubject subject) w result w') :
    Marked c w (fun tree => SubjectCourse c tree subject) result w' := by
  cases subject with
  | given s state =>
      exact (check_course h).imp fun _ _ hcheck => hcheck.subjectCourse ⟨rfl, rfl⟩
  | files schedulePath statePath =>
      refine (checkFiles_course h).imp fun tree es hfiles => ?_
      cases hfiles with
      | noSchedule hread => exact .none (by simp)
      | noState hread => exact .none (by simp)
      | checked hschedule hstate hcheck => exact hcheck.subjectCourse ⟨hschedule, hstate⟩

end Subject

/-! ## Rounds -/

/-- One check of a series, from its beginning to its end. -/
structure Round (σ : Type) where
  checker : Checker σ
  subject : Subject
  before : World σ
  result : Except (Stop CheckError) Verdict
  after : World σ

namespace Round

variable {dir : String} {round : Round σ} {v : Verdict}

/-- The check writes to a directory, in which nobody else touches the file of the delay. -/
structure Runs (dir : String) (round : Round σ) : Prop where
  dir_eq : round.checker.dir = dir
  leavesAlone : LeavesAlone round.checker.backend round.checker.combiner dir .delay
  ends : Ends (round.checker.checkSubject round.subject) round.before round.result round.after

/-- The check leaves the file of the delay as it was. -/
def Keeps (dir : String) (round : Round σ) : Prop :=
  round.after.tree.at? (Artifact.delay.pathIn dir) =
    round.before.tree.at? (Artifact.delay.pathIn dir)

/-- The file of the delay holds a record of the task that the check was about. -/
def Records (dir : String) (round : Round σ) (t : Task) (delay : Time) : Prop :=
  ∃ tree s state earlier,
    Artifact.store round.before.tree dir .path Artifact.placeholder = .ok tree ∧
      round.subject.Gives tree s state ∧
        s.Selects state.time round.checker.options.keyUnit earlier t ∧
          round.after.tree.readText (Artifact.delay.pathIn dir) =
            .ok ((Recorder.ofTask dir s state t).entry delay).text

/-- What a check does to the file of the delay. -/
inductive Effect (dir : String) (round : Round σ) : Prop
  /-- It broke off. -/
  | failed {stop : Stop CheckError} (hresult : round.result = .error stop)
      (heffect : round.Keeps dir ∨ ∃ t delay, round.Records dir t delay)
  /-- It came to a verdict other than that the task is infeasible. -/
  | kept {v : Verdict} (hresult : round.result = .ok v) (hfeasible : v.isInfeasible = false)
      (hkeeps : round.Keeps dir)
  /-- The task is infeasible, and the delay of the verdict is recorded. -/
  | recorded {t : Task} {delay : Option Time} {proof : InfeasibilityProof} {last : Time}
      (hresult : round.result = .ok (.infeasible t delay proof)) (hlast : ∀ d ∈ delay, last = d)
      (hrecords : round.Records dir t last) : Effect dir round

/-- A check of a task leaves the file of the delay as it was, or with the record that it wrote
last. -/
theorem effect_of_task {c : Checker σ} {subject : Subject} {w w' : World σ} {tree : Tree}
    {s : Schedule} {state : PlantState} {earlier : List Task} {t : Task} {es : List Event}
    {result : Except (Stop CheckError) Verdict}
    (hstore : Artifact.store w.tree c.dir .path Artifact.placeholder = .ok tree)
    (hleaves : Tree.Leaves w.tree w'.tree (Artifact.delay.pathIn c.dir)
      (Event.texts .delay es).getLast?)
    (hgives : subject.Gives tree s state)
    (hselects : s.Selects state.time c.options.keyUnit earlier t)
    (htask : TaskCourse c (.ofTask c.dir s state t) (Schedule.occurrence earlier t) t es result) :
    Effect c.dir ⟨c, subject, w, result, w'⟩ := by
  let r := Recorder.ofTask c.dir s state t
  have hrecords := htask.recordsDelay
  cases hlast : (Event.texts .delay es).getLast? with
  | none =>
      have hnone := List.getLast?_eq_none_iff.1 hlast
      rw [hlast] at hleaves
      cases result with
      | error stop => exact .failed rfl (.inl hleaves)
      | ok v => exact .kept rfl ((hrecords.verdict v rfl).1 hnone) hleaves
  | some text =>
      rw [hlast] at hleaves
      have hrecorded {delay : Time} (hentry : text = (r.entry delay).text) :
          Records c.dir ⟨c, subject, w, result, w'⟩ t delay :=
        ⟨tree, s, state, earlier, hstore, hgives, hselects, hentry ▸ hleaves⟩
      obtain ⟨last, hentry⟩ := hrecords.entries text (List.mem_of_getLast? hlast)
      cases result with
      | error stop => exact .failed rfl (.inr ⟨t, last, hrecorded hentry⟩)
      | ok v =>
          have hne : Event.texts .delay es ≠ [] := fun hnil => by simp [hnil] at hlast
          obtain ⟨htask?, -, -⟩ := htask.justified rfl
          have hdelayed := TaskCourse.keepsDelay (r := r) htask rfl (by simp)
          cases v with
          | noActiveTask => simp [Verdict.task?] at htask?
          | feasible t' time proof => exact absurd ((hrecords.verdict _ rfl).2 rfl) hne
          | undetermined t' => exact absurd ((hrecords.verdict _ rfl).2 rfl) hne
          | infeasible t' delay proof =>
              obtain rfl := Option.some.inj htask?
              cases delay with
              | none => exact .recorded rfl (by simp) (hrecorded hentry)
              | some d =>
                  obtain ⟨hcontent, -⟩ := hdelayed.verdict _ _ _ rfl
                  obtain rfl := Option.some.inj (hlast.symm.trans hcontent)
                  exact .recorded rfl (by simp) (hrecorded rfl)

theorem Runs.effect (h : round.Runs dir) : round.Effect dir := by
  obtain ⟨c, subject, w, result, w'⟩ := round
  obtain ⟨rfl, halone, hends⟩ := h
  dsimp only at halone hends ⊢
  cases checkSubject_course hends with
  | unmarked e => exact .failed rfl (.inl rfl)
  | marked hstore hcourse hsubject =>
      have hleaves := leaves_delay halone hstore hcourse
      cases hsubject with
      | none hresult =>
          cases result with
          | error stop => exact .failed rfl (.inl hleaves)
          | ok v =>
              obtain rfl := hresult v rfl
              exact .kept rfl rfl hleaves
      | task hgives hselects htask => exact effect_of_task hstore hleaves hgives hselects htask

end Round

/-! ## Series -/

/-- Checks that write to one directory, one after another. Before and between them anything may
change but the file of the delay. -/
inductive Series (dir : String) : Tree → List (Round σ) → Tree → Prop
  | nil (tree : Tree) : Series dir tree [] tree
  | cons {round : Round σ} {rest : List (Round σ)} {tree tree' : Tree} (hruns : round.Runs dir)
      (hsame : round.before.tree.at? (Artifact.delay.pathIn dir) =
        tree.at? (Artifact.delay.pathIn dir))
      (hrest : Series dir round.after.tree rest tree') : Series dir tree (round :: rest) tree'

/-- There is a file of the delay. -/
def HasDelay (dir : String) (tree : Tree) : Prop :=
  tree.isFile (Artifact.delay.pathIn dir)

section Series

variable {dir : String} {round : Round σ} {rounds : List (Round σ)} {tree tree' : Tree}

theorem hasDelay_congr
    (h : tree'.at? (Artifact.delay.pathIn dir) = tree.at? (Artifact.delay.pathIn dir)) :
    HasDelay dir tree' ↔ HasDelay dir tree := by
  unfold HasDelay Tree.isFile
  rw [h]

theorem Round.Records.hasDelay {t : Task} {delay : Time} (h : round.Records dir t delay) :
    HasDelay dir round.after.tree := by
  obtain ⟨_, _, _, _, -, -, -, hread⟩ := h
  exact Tree.isFile_of_readText hread

/-- No check takes the file of the delay away, and only a record makes it appear. -/
theorem Round.Effect.hasDelay_iff (h : round.Effect dir) :
    HasDelay dir round.after.tree ↔
      HasDelay dir round.before.tree ∨ ∃ t delay, round.Records dir t delay := by
  have hrecords : (∃ t delay, round.Records dir t delay) → HasDelay dir round.after.tree := by
    rintro ⟨t, delay, hrecord⟩
    exact hrecord.hasDelay
  have hkeeps (hkept : round.Keeps dir) : HasDelay dir round.after.tree ↔
      HasDelay dir round.before.tree ∨ ∃ t delay, round.Records dir t delay := by
    have hsame := hasDelay_congr hkept
    constructor
    · exact fun hafter => .inl (hsame.1 hafter)
    · exact fun hcause => hcause.elim hsame.2 hrecords
  cases h with
  | failed hresult heffect =>
      rcases heffect with hkept | hrecord
      · exact hkeeps hkept
      · exact iff_of_true (hrecords hrecord) (.inr hrecord)
  | kept hresult hfeasible hkept => exact hkeeps hkept
  | recorded hresult hlast hrecord =>
      exact iff_of_true hrecord.hasDelay (.inr ⟨_, _, hrecord⟩)

/-- The file of the delay is there after a series just if it was there before, or some check of the
series has recorded a delay. -/
theorem Series.hasDelay_iff (h : Series dir tree rounds tree') :
    HasDelay dir tree' ↔
      HasDelay dir tree ∨ ∃ round ∈ rounds, ∃ t delay, round.Records dir t delay := by
  induction h with
  | nil => simp
  | cons hruns hsame _ ih =>
      rw [ih, hruns.effect.hasDelay_iff, hasDelay_congr hsame, or_assoc, List.exists_mem_cons_iff]

theorem Series.effect (h : Series dir tree rounds tree') :
    ∀ round ∈ rounds, round.Effect dir := by
  induction h with
  | nil => simp
  | cons hruns _ _ ih => exact List.forall_mem_cons.2 ⟨hruns.effect, ih⟩

/-- A series is its first part and then the rest. -/
theorem Series.split {rest : List (Round σ)} (h : Series dir tree (rounds ++ rest) tree') :
    ∃ mid, Series dir tree rounds mid ∧ Series dir mid rest tree' := by
  induction rounds generalizing tree with
  | nil => exact ⟨tree, .nil tree, h⟩
  | cons round rounds ih =>
      cases h with
      | cons hruns hsame hrest =>
          obtain ⟨mid, hfirst, hlast⟩ := ih hrest
          exact ⟨mid, .cons hruns hsame hfirst, hlast⟩

/-- If every check of a series comes to a verdict, the file of the delay is there just if it was
there before, or one of the verdicts is that a task is infeasible. -/
theorem Series.hasDelay_iff_of_verdicts (h : Series dir tree rounds tree')
    (hverdicts : ∀ round ∈ rounds, ∃ v, round.result = .ok v) :
    HasDelay dir tree' ↔ HasDelay dir tree ∨
      ∃ round ∈ rounds, ∃ v, round.result = .ok v ∧ v.isInfeasible := by
  induction h with
  | nil => simp
  | @cons round rest tree tree' hruns hsame _ ih =>
      obtain ⟨⟨v, hv⟩, hrest⟩ := List.forall_mem_cons.1 hverdicts
      have hstep : HasDelay dir round.after.tree ↔ HasDelay dir tree ∨ v.isInfeasible := by
        rw [← hasDelay_congr hsame]
        cases hruns.effect with
        | failed hresult heffect => simp [hv] at hresult
        | kept hresult hfeasible hkept =>
            obtain rfl := Except.ok.inj (hv.symm.trans hresult)
            simpa [hfeasible] using hasDelay_congr hkept
        | recorded hresult hlast hrecord =>
            obtain rfl := Except.ok.inj (hv.symm.trans hresult)
            exact iff_of_true hrecord.hasDelay (.inr rfl)
      have hhead : (∃ v, round.result = .ok v ∧ v.isInfeasible) ↔ v.isInfeasible := by
        simp [hv]
      rw [ih hrest, hstep, or_assoc, List.exists_mem_cons_iff, hhead]

end Series

/-- Over every series of checks into one directory: each check that comes to a verdict records a
delay of its task just if the task is infeasible, and leaves the file of the delay as it was
otherwise. The file is never taken away. So it tells about the latest verdict just if the task is
infeasible, or no file was there at first and no earlier check has left a record. -/
theorem delay_after_series {dir : String} {tree tree' : Tree} {rounds : List (Round σ)}
    (h : Series dir tree rounds tree') :
    (∀ round ∈ rounds, round.Effect dir) ∧
      (HasDelay dir tree' ↔
        HasDelay dir tree ∨ ∃ round ∈ rounds, ∃ t delay, round.Records dir t delay) ∧
      ((∀ round ∈ rounds, ∃ v, round.result = .ok v) →
        (HasDelay dir tree' ↔ HasDelay dir tree ∨
          ∃ round ∈ rounds, ∃ v, round.result = .ok v ∧ v.isInfeasible)) ∧
      ∀ earlier last v, rounds = earlier ++ [last] → last.result = .ok v →
        ((HasDelay dir tree' ↔ v.isInfeasible) ↔
          v.isInfeasible ∨ ¬ (HasDelay dir tree ∨
            ∃ round ∈ earlier, ∃ t delay, round.Records dir t delay)) := by
  refine ⟨h.effect, h.hasDelay_iff, h.hasDelay_iff_of_verdicts, ?_⟩
  rintro earlier last v rfl hv
  obtain ⟨mid, hearlier, hlast⟩ := h.split
  have hverdicts : ∀ round ∈ [last], ∃ v, round.result = .ok v :=
    List.forall_mem_singleton.2 ⟨v, hv⟩
  have hfound : HasDelay dir tree' ↔ HasDelay dir mid ∨ v.isInfeasible := by
    rw [hlast.hasDelay_iff_of_verdicts hverdicts]
    simp [hv]
  rw [hfound, ← hearlier.hasDelay_iff]
  by_cases hinfeasible : v.isInfeasible
  · simp [hinfeasible]
  · simp [hinfeasible]

/-- A check whose task is infeasible, and after it one whose task is feasible. The record of the
first is still there. -/
theorem delay_after_series_carefree :
    ∃ (rounds : List (Round Unit)) (tree' : Tree) (v : Verdict),
      Series "." .empty rounds tree' ∧
        (rounds.getLast?.map Round.result) = some (.ok v) ∧ v.isFeasible ∧ HasDelay "." tree' := by
  let state : PlantState := ⟨0, .null, []⟩
  obtain ⟨⟨v₁, v₂⟩, w₂, hends, hverdicts⟩ := exists_ends_ok_of_endsIn
    ((sevenChecker 4.0).trusting.check lone ⟨0, .null, []⟩ >>= fun v₁ =>
      carefree.check lone ⟨0, .null, []⟩ >>= fun v₂ => pure (v₁, v₂))
    ⟨.empty, [], (), []⟩ (fun p => p.1.isInfeasible && p.2.isFeasible) (by decide +kernel)
  obtain ⟨v, w₁, hfirst, hrest⟩ := ends_bind_ok.1 hends
  obtain ⟨v', w, hsecond, hlast⟩ := ends_bind_ok.1 hrest
  obtain ⟨heq, rfl⟩ := ends_pure_ok.1 hlast
  obtain ⟨rfl, rfl⟩ := Prod.mk.inj heq
  obtain ⟨hinfeasible, hfeasible⟩ := Bool.and_eq_true_iff.1 hverdicts
  let first : Round Unit :=
    ⟨(sevenChecker 4.0).trusting, .given lone state, ⟨.empty, [], (), []⟩, .ok v₁, w₁⟩
  let second : Round Unit := ⟨carefree, .given lone state, w₁, .ok v₂, w₂⟩
  have hseries : Series "." .empty [first, second] w₂.tree :=
    .cons ⟨rfl, leavesAlone_sevenChecker 4.0 .delay, hfirst⟩ rfl
      (.cons ⟨rfl, leavesAlone_carefree .delay, hsecond⟩ rfl (.nil _))
  obtain ⟨-, -, hpresent, -⟩ := delay_after_series hseries
  have hall : ∀ round ∈ [first, second], ∃ v, round.result = .ok v :=
    List.forall_mem_cons.2 ⟨⟨v₁, rfl⟩, List.forall_mem_singleton.2 ⟨v₂, rfl⟩⟩
  refine ⟨_, _, v₂, hseries, rfl, hfeasible, (hpresent hall).2 (.inr ?_)⟩
  exact ⟨first, List.mem_cons_self, v₁, rfl, hinfeasible⟩

end Checker

end Punctual
