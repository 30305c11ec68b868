import Punctual.Proofs.Json.Reading
import Punctual.Proofs.Json.Results
import Punctual.Proofs.Schedule.Derivation

/-!
# Schedules as data and back

A schedule that is written and read again is the same schedule, with its units and their tasks in
order, whatever the units and tasks are called, and so is a task that is written for itself
(`Schedule.read_write`). Written are times of 64 bits and units of different names, and every
schedule that can be read is made of these (`Schedule.isWellTyped_of_read`).
-/

namespace Punctual

open Json

variable {depth : Nat}

/-! ## Windows, entries and tasks -/

/-- Both ends of the window fit 64 bits. -/
def Window.Fits (w : Window) : Prop :=
  Time.Fits w.opens ∧ Time.Fits w.closes

instance (w : Window) : Decidable w.Fits :=
  inferInstanceAs (Decidable (_ ∧ _))

theorem readsBack_time {t : Time} (h : Time.Fits t) :
    ReadsBack Window.time depth (toString t) t :=
  readsBack_int h.1 h.2 h

theorem readsBack_window {w : Window} (h : w.Fits) :
    ReadsBack Window.reader (depth + 1) w.write w :=
  (readsBack_pair (readsBack_time h.1) (readsBack_time h.2)).map _

theorem readsBack_slot {s : Slot} (h : s.window.Fits) :
    ReadsBack Slot.reader (depth + 2) s.write s :=
  (readsBack_pair (readsBack_text s.name) (readsBack_window h)).map _

theorem readsBack_task {t : Task} (h : t.window.Fits) :
    ReadsBack Task.reader (depth + 2) t.write t :=
  (readsBack_triple (readsBack_text t.unit) (readsBack_text t.name) (readsBack_window h)).map _

namespace Schedule

/-- The times fit 64 bits, and no two units have one name. -/
structure IsWellTyped (s : Schedule) : Prop where
  horizon : s.horizon.Fits
  windows : ∀ unit ∈ s.units, ∀ slot ∈ unit.2, slot.window.Fits
  names : (s.units.map Prod.fst).Nodup

variable {s : Schedule}

theorem readsBack_slots {slots : List Slot} (h : ∀ slot ∈ slots, slot.window.Fits) :
    ReadsBack (Reader.list Slot.reader) (depth + 3) (writeList (slots.map Slot.write)) slots := by
  refine readsBack_list ?_
  rw [List.forall₂_map_left_iff, List.forall₂_same]
  exact fun slot hslot => readsBack_slot (h slot hslot)

theorem readsBack_units {units : Units} (hnames : (units.map Prod.fst).Nodup)
    (h : ∀ unit ∈ units, ∀ slot ∈ unit.2, slot.window.Fits) :
    ReadsBack (Reader.object (.list Slot.reader)) (depth + 4)
      (writeObject (units.map fun (unit, slots) => (unit, writeList (slots.map Slot.write))))
      units := by
  refine readsBack_object ?_ hnames
  rw [List.forall₂_map_left_iff, List.forall₂_same]
  exact fun unit hunit => ⟨rfl, readsBack_slots (h unit hunit)⟩

theorem readsBack_draft (h : s.IsWellTyped) :
    ReadsBack draftReader maxDepth s.write (s.horizon, s.units) := by
  have hhorizon : ReadsBack Window.reader 126 s.horizon.write s.horizon :=
    readsBack_window h.horizon
  have hunits : ReadsBack (Reader.object (.list Slot.reader)) 126 _ s.units :=
    readsBack_units h.names h.windows
  exact readsBack_record
    (.cons ⟨_, rfl, hhorizon.map fun w (d : Draft) => { d with horizon := some w }⟩
      (.cons ⟨_, rfl, hunits.map fun us (d : Draft) => { d with units := some us }⟩ .nil))
    (by simp) rfl

/-! ## What is read -/

theorem gives_window : Gives Window.reader Window.Fits :=
  (gives_pair (gives_int _ _) (gives_int _ _)).map fun _ h => h

theorem gives_slot : Gives Slot.reader fun slot => slot.window.Fits :=
  (gives_pair (gives_any _) gives_window).map fun _ h => h.2

/-- What the draft of a schedule holds is well typed. -/
structure Draft.IsWellTyped (d : Draft) : Prop where
  horizon : ∀ w ∈ d.horizon, w.Fits
  units : ∀ us ∈ d.units, AreMembers (fun slots : List Slot => ∀ slot ∈ slots, slot.window.Fits) us

/-- Setting a field in this way keeps a draft well typed. -/
def Draft.Keeps (set : Draft → Draft) : Prop :=
  ∀ d : Draft, d.IsWellTyped → (set d).IsWellTyped

theorem gives_horizon :
    Gives (Window.reader.map fun w (d : Draft) => { d with horizon := some w }) Draft.Keeps := by
  refine gives_window.map fun w hw d hd => ⟨?_, hd.units⟩
  intro w' hw'
  obtain rfl := Option.some.inj hw'
  exact hw

theorem gives_units :
    Gives ((Reader.object (.list Slot.reader)).map fun us (d : Draft) =>
      { d with units := some us }) Draft.Keeps := by
  refine (gives_object (gives_list gives_slot)).map fun us hus d hd => ⟨hd.horizon, ?_⟩
  intro us' hus'
  obtain rfl := Option.some.inj hus'
  exact hus

/-- A schedule that is read is well typed. -/
theorem isWellTyped_of_read {text : String} (h : read text = .ok s) : s.IsWellTyped := by
  have hparse := read_eq_ok_iff.1 h
  have hgives : Gives draftReader fun x => x.1.Fits ∧
      AreMembers (fun slots : List Slot => ∀ slot ∈ slots, slot.window.Fits) x.2 := by
    refine gives_record (I := Draft.IsWellTyped) ?_ ⟨by simp, by simp⟩ ?_
    · intro field hfield
      rcases List.mem_cons.1 hfield with rfl | hfield
      · exact gives_horizon
      · obtain rfl := List.mem_singleton.1 hfield
        exact gives_units
    · rintro ⟨_ | w, _ | us⟩ x hd hx <;> simp at hx
      subst hx
      exact ⟨hd.horizon w rfl, hd.units us rfl⟩
  obtain ⟨hhorizon, hnames, hwindows⟩ := hgives.of_parse hparse
  exact ⟨hhorizon, hwindows, hnames⟩

/-! ## Back again -/

/-- A schedule that is written is read again, with its units and tasks in order, and a task that is
written for itself is read again. -/
theorem read_write :
    (∀ s : Schedule, s.IsWellTyped → read s.write = .ok s) ∧
      ∀ t : Task, t.window.Fits → Json.parse Task.reader t.write = .ok t := by
  constructor
  · intro s h
    exact read_eq_ok_iff.2 (readsBack_draft h).parse_eq
  · intro t h
    have hback : ReadsBack Task.reader maxDepth t.write t := readsBack_task h
    exact hback.parse_eq

/-- Units with marks, backslashes, controls and nothing in their names, one of them without tasks,
and times at the limits of 64 bits. -/
def awkwardUnits : Units :=
  [("say \"no\"\\", [⟨"tab\t\u0001", ⟨Time.lowest, Time.highest⟩⟩, ⟨"", ⟨-1, 0⟩⟩]), ("", []),
    ("é😀", [⟨"a\nb", ⟨3, 3⟩⟩])]

theorem awkwardUnits_fitsIn :
    awkwardUnits.tasks.all fun t => t.window.FitsIn ⟨Time.lowest, Time.highest⟩ := by
  decide

def awkward : Schedule where
  horizon := ⟨Time.lowest, Time.highest⟩
  units := awkwardUnits
  opens_le_closes := by decide
  fitsIn t ht := of_decide_eq_true (List.all_eq_true.1 awkwardUnits_fitsIn t ht)

theorem awkwardUnits_fit :
    awkwardUnits.all fun unit => unit.2.all fun slot => slot.window.Fits := by
  decide

theorem isWellTyped_awkward : awkward.IsWellTyped where
  horizon := by decide
  windows unit hunit slot hslot := of_decide_eq_true
    (List.all_eq_true.1 (List.all_eq_true.1 awkwardUnits_fit unit hunit) slot hslot)
  names := by decide

theorem read_write_awkward :
    read awkward.write = .ok awkward ∧
      awkward.write = "\x7b\"horizon\":[-9223372036854775808,9223372036854775807]," ++
        "\"tasks\":\x7b\"say \\\"no\\\"\\\\\":[[\"tab\\t\\u0001\"," ++
        "[-9223372036854775808,9223372036854775807]],[\"\",[-1,0]]],\"\":[]," ++
        "\"é😀\":[[\"a\\nb\",[3,3]]]\x7d\x7d" ∧
      Json.parse Task.reader (Task.write ⟨"\"u\"", "\\", ⟨-2, 5⟩⟩) =
        .ok ⟨"\"u\"", "\\", ⟨-2, 5⟩⟩ := by
  refine ⟨read_write.1 _ isWellTyped_awkward, by decide +kernel, read_write.2 _ (by decide)⟩

end Schedule

end Punctual
