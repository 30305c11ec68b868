import Punctual.Proofs.Specification.Occurrence
import Punctual.Schedule.Data

/-!
# Which schedules there are

A schedule is made of a horizon and units, or of a text that holds them, and further schedules are
derived from it that hold one task each. All ways lead through `Schedule.ofUnits`, which makes two
comparisons for each window: it is not empty, and it closes by the end of the horizon. Nothing
compares the beginnings, so that a window may open before the horizon does.

`Schedule.obtained_exactly` says which schedules can be obtained at all, and when their windows lie
within the horizon.
-/

namespace Punctual

/-- All of the window lies within the horizon. -/
def Window.LiesIn (w horizon : Window) : Prop :=
  horizon.opens ≤ w.opens ∧ w.opens ≤ w.closes ∧ w.closes ≤ horizon.closes

instance (w horizon : Window) : Decidable (w.LiesIn horizon) :=
  inferInstanceAs (Decidable (_ ∧ _))

/-- What a window needs to lie within a horizon that it fits. -/
theorem Window.liesIn_iff {w horizon : Window} :
    w.LiesIn horizon ↔ horizon.opens ≤ w.opens ∧ w.FitsIn horizon :=
  Iff.rfl

/-- The units of a schedule that holds one task only. -/
def Units.only (t : Task) : Units :=
  [(t.unit, [⟨t.name, t.window⟩])]

namespace Schedule

variable {s s' : Schedule} {horizon : Window} {units : Units}

/-! ## Ways to a schedule -/

/-- What a schedule is made of at first. -/
inductive Origin
  | parts (horizon : Window) (units : Units)
  | data (text : String)

/-- The horizon and the units that are given. -/
def Origin.parts? : Origin → Option (Window × Units)
  | .parts horizon units => some (horizon, units)
  | .data text => (Json.parse draftReader text).toOption

/-- The schedule that is made at first, if there is one. -/
def Origin.make? : Origin → Option Schedule
  | .parts horizon units => (ofUnits horizon units).toOption
  | .data text => (read text).toOption

/-- A way to derive one schedule from another. -/
inductive Derivation
  | single (t : Task)
  | relaxed (t : Task) (deadline : Time)

namespace Derivation

/-- The task that a schedule is derived for. -/
def subject : Derivation → Task
  | single t => t
  | relaxed t _ => t

/-- The task that the derived schedule holds. -/
def task : Derivation → Task
  | single t => t
  | relaxed t deadline => t.withDeadline deadline

/-- The derived schedule, if there is one. -/
def derive? (s : Schedule) : Derivation → Option Schedule
  | single t => (s.single t).toOption
  | relaxed t deadline => (s.relaxed t deadline).toOption

end Derivation

/-- The schedule that one derivation after another leads to. -/
def obtain? (origin : Origin) (ds : List Derivation) : Option Schedule := do
  let s ← origin.make?
  ds.foldlM Derivation.derive? s

/-- The units that were given last. -/
def lastUnits (units : Units) (ds : List Derivation) : Units :=
  ds.foldl (fun _ d => .only d.task) units

/-! ## One step -/

theorem toOption_eq_some_iff {ε α : Type} {x : Except ε α} {a : α} :
    x.toOption = some a ↔ x = .ok a := by
  cases x <;> simp [Except.toOption]

theorem read_eq_ok_iff {text : String} :
    read text = .ok s ↔ Json.parse draftReader text = .ok (s.horizon, s.units) := by
  unfold read
  constructor
  · intro h
    split at h
    · simp at h
    · next horizon units hparse =>
        split at h
        · simp at h
        · next made hmade =>
            obtain rfl := Except.ok.inj h
            obtain ⟨rfl, rfl⟩ := ofUnits_eq_ok_iff.1 hmade
            exact hparse
  · intro h
    rw [h]
    dsimp only
    rw [ofUnits_eq_ok_iff.2 ⟨rfl, rfl⟩]

/-- A first schedule is what it is made of, if that keeps the rules. -/
theorem make?_eq_some_iff {origin : Origin} :
    origin.make? = some s ↔ origin.parts? = some (s.horizon, s.units) := by
  cases origin with
  | parts horizon units =>
      rw [Origin.make?, toOption_eq_some_iff, ofUnits_eq_ok_iff, Origin.parts?, Option.some_inj,
        Prod.mk.injEq, eq_comm, @eq_comm _ s.units]
  | data text =>
      rw [Origin.make?, Origin.parts?, toOption_eq_some_iff, toOption_eq_some_iff, read_eq_ok_iff]

theorem derive?_eq (s : Schedule) (d : Derivation) :
    d.derive? s = (ofUnits s.horizon (.only d.task)).toOption := by
  cases d <;> rfl

/-- A derived schedule keeps the horizon and holds one task. -/
theorem derive?_eq_some_iff {d : Derivation} :
    d.derive? s = some s' ↔ s'.horizon = s.horizon ∧ s'.units = .only d.task := by
  rw [derive?_eq, toOption_eq_some_iff, ofUnits_eq_ok_iff]

theorem exists_derive?_iff {d : Derivation} :
    (∃ s', d.derive? s = some s') ↔ d.task.window.FitsIn s.horizon := by
  simp only [derive?_eq_some_iff]
  constructor
  · rintro ⟨s', hhorizon, hunits⟩
    rw [← hhorizon]
    apply s'.fitsIn
    rw [hunits]
    exact List.mem_cons_self
  · intro hfits
    obtain ⟨sub, hsub, -⟩ := single_eq_ok (s := s) hfits
    exact ⟨sub, ofUnits_eq_ok_iff.1 hsub⟩

/-! ## Whole sequences -/

/-- A schedule has a horizon and the units that were given last, and all windows that were given on
the way fit the horizon. -/
structure MadeOf (s : Schedule) (horizon : Window) (units : Units) (ds : List Derivation) :
    Prop where
  keeps : s.horizon = horizon
  holds : s.units = lastUnits units ds
  nonempty : horizon.opens ≤ horizon.closes
  fits : ∀ t ∈ units.tasks, t.window.FitsIn horizon
  derived : ∀ d ∈ ds, d.task.window.FitsIn horizon

/-- Derivations succeed one after the other exactly if all their windows fit the horizon. -/
theorem foldlM_derive?_eq_some_iff (ds : List Derivation) :
    ds.foldlM Derivation.derive? s = some s' ↔ s'.MadeOf s.horizon s.units ds := by
  induction ds generalizing s with
  | nil =>
      constructor
      · intro h
        obtain rfl := Option.some.inj h
        exact ⟨rfl, rfl, s.opens_le_closes, s.fitsIn, by simp⟩
      · intro h
        have hsame : s = s' := by
          cases s
          cases s'
          obtain ⟨rfl, rfl, -, -, -⟩ := h
          rfl
        exact congrArg some hsame
  | cons d ds ih =>
      rw [List.foldlM_cons, Option.bind_eq_bind, Option.bind_eq_some_iff]
      constructor
      · rintro ⟨s₁, hfirst, hrest⟩
        have hfits := exists_derive?_iff.1 ⟨s₁, hfirst⟩
        obtain ⟨hhorizon, hunits⟩ := derive?_eq_some_iff.1 hfirst
        have hmade := ih.1 hrest
        rw [hhorizon, hunits] at hmade
        exact ⟨hmade.keeps, hmade.holds, s.opens_le_closes, s.fitsIn,
          List.forall_mem_cons.2 ⟨hfits, hmade.derived⟩⟩
      · intro h
        obtain ⟨hfits, hderived⟩ := List.forall_mem_cons.1 h.derived
        obtain ⟨s₁, hfirst⟩ := exists_derive?_iff.2 hfits
        obtain ⟨hhorizon, hunits⟩ := derive?_eq_some_iff.1 hfirst
        refine ⟨s₁, hfirst, ih.2 ⟨?_, ?_, s₁.opens_le_closes, s₁.fitsIn, ?_⟩⟩
        · rw [h.keeps, hhorizon]
        · rw [h.holds, hunits]
          rfl
        · rw [hhorizon]
          exact hderived

theorem obtain?_eq_some_iff {origin : Origin} {ds : List Derivation} :
    obtain? origin ds = some s ↔
      ∃ horizon units, origin.parts? = some (horizon, units) ∧ s.MadeOf horizon units ds := by
  unfold obtain?
  rw [Option.bind_eq_bind, Option.bind_eq_some_iff]
  constructor
  · rintro ⟨first, hfirst, hrest⟩
    exact ⟨_, _, make?_eq_some_iff.1 hfirst, (foldlM_derive?_eq_some_iff ds).1 hrest⟩
  · rintro ⟨horizon, units, hparts, h⟩
    exact ⟨⟨horizon, units, h.nonempty, h.fits⟩, make?_eq_some_iff.2 hparts,
      (foldlM_derive?_eq_some_iff ds).2 h⟩

/-! ## Windows and the beginning of the horizon -/

/-- The windows lie within the horizon if none of those that were given last opens before it. -/
theorem MadeOf.liesIn_iff {ds : List Derivation} (h : s.MadeOf horizon units ds) :
    (∀ t ∈ s.units.tasks, t.window.LiesIn s.horizon) ↔
      ∀ t ∈ (lastUnits units ds).tasks, horizon.opens ≤ t.window.opens := by
  rw [← h.holds, ← h.keeps]
  constructor
  · intro hlies t ht
    exact (hlies t ht).1
  · intro hopens t ht
    exact Window.liesIn_iff.2 ⟨hopens t ht, s.fitsIn t ht⟩

theorem opens_task (d : Derivation) : d.task.window.opens = d.subject.window.opens := by
  cases d <;> rfl

/-- Deriving from tasks of the first schedule moves no window before the horizon. -/
theorem opens_of_mem_lastUnits {ds : List Derivation} {opens : Time}
    (hsubject : ∀ d ∈ ds, d.subject ∈ units.tasks)
    (hopens : ∀ t ∈ units.tasks, opens ≤ t.window.opens) :
    ∀ t ∈ (lastUnits units ds).tasks, opens ≤ t.window.opens := by
  have hlast : ∀ us : Units, (∀ t ∈ us.tasks, opens ≤ t.window.opens) →
      ∀ t ∈ (lastUnits us ds).tasks, opens ≤ t.window.opens := by
    induction ds with
    | nil => exact fun us hus => hus
    | cons d ds ih =>
        obtain ⟨hd, hds⟩ := List.forall_mem_cons.1 hsubject
        intro us _
        refine ih hds (.only d.task) ?_
        intro t ht
        obtain rfl := List.mem_singleton.1 ht
        rw [opens_task]
        exact hopens _ hd
  exact hlast units hopens

/-- The schedules that constructors and derivations lead to are exactly those whose windows fit the
horizon: it is not empty, and every window is not empty and closes by its end. Their windows lie
within the horizon exactly if none of those given last opens before it, which nothing checks; a
derivation from tasks of a schedule that lies within its horizon stays within it. -/
theorem obtained_exactly (origin : Origin) (ds : List Derivation) :
    (∀ s, obtain? origin ds = some s ↔
      ∃ horizon units, origin.parts? = some (horizon, units) ∧ s.MadeOf horizon units ds) ∧
    ∀ s horizon units, origin.parts? = some (horizon, units) → obtain? origin ds = some s →
      s.horizon = horizon ∧ horizon.opens ≤ horizon.closes ∧
      (∀ t ∈ s.units.tasks,
        t.window.opens ≤ t.window.closes ∧ t.window.closes ≤ s.horizon.closes) ∧
      ((∀ t ∈ s.units.tasks, t.window.LiesIn s.horizon) ↔
        ∀ t ∈ (lastUnits units ds).tasks, horizon.opens ≤ t.window.opens) ∧
      ((∀ d ∈ ds, d.subject ∈ units.tasks) → (∀ t ∈ units.tasks, t.window.LiesIn horizon) →
        ∀ t ∈ s.units.tasks, t.window.LiesIn s.horizon) := by
  refine ⟨fun s => obtain?_eq_some_iff, ?_⟩
  intro s horizon units hparts hobtained
  obtain ⟨horizon', units', hparts', hmade⟩ := obtain?_eq_some_iff.1 hobtained
  obtain ⟨rfl, rfl⟩ := Prod.mk.inj (Option.some.inj (hparts.symm.trans hparts'))
  refine ⟨hmade.keeps, hmade.nonempty, s.fitsIn, hmade.liesIn_iff, ?_⟩
  intro hsubject hlies
  apply hmade.liesIn_iff.2
  exact opens_of_mem_lastUnits hsubject fun t ht => (hlies t ht).1

/-- A window that opens before the horizon does. -/
def earlyUnits : Units :=
  [("u", [⟨"n", ⟨0, 7⟩⟩])]

theorem obtained_exactly_early :
    ∃ s, obtain? (.parts ⟨5, 10⟩ earlyUnits) [.relaxed ⟨"u", "n", ⟨0, 7⟩⟩ 9] = some s ∧
      ¬ ∀ t ∈ s.units.tasks, t.window.LiesIn s.horizon := by
  obtain ⟨hobtained, hwindows⟩ :=
    obtained_exactly (.parts ⟨5, 10⟩ earlyUnits) [.relaxed ⟨"u", "n", ⟨0, 7⟩⟩ 9]
  have hfits : ∀ t ∈ Units.tasks [("u", [⟨"n", ⟨0, 9⟩⟩])], t.window.FitsIn ⟨5, 10⟩ :=
    List.forall_mem_singleton.2 (by decide)
  have hmade : MadeOf ⟨⟨5, 10⟩, [("u", [⟨"n", ⟨0, 9⟩⟩])], by decide, hfits⟩ ⟨5, 10⟩ earlyUnits
      [.relaxed ⟨"u", "n", ⟨0, 7⟩⟩ 9] :=
    ⟨rfl, rfl, by decide, List.forall_mem_singleton.2 (by decide),
      List.forall_mem_singleton.2 (by decide)⟩
  have hs := (hobtained _).2 ⟨_, _, rfl, hmade⟩
  refine ⟨_, hs, ?_⟩
  obtain ⟨-, -, -, hlies, -⟩ := hwindows _ _ _ rfl hs
  rw [hlies]
  intro hopens
  have hopen := hopens ⟨"u", "n", ⟨0, 9⟩⟩ List.mem_cons_self
  revert hopen
  decide

end Schedule

end Punctual
