import Punctual.Proofs.Schedule.Order
import Punctual.Proofs.Specification.Ranges

/-!
# Numbers of occurrences

In one pass over the tasks of a schedule, their occurrences are numbered for each pair of unit and
task by itself: whatever other tasks are in between, the targets of a pair are numbered one after
another from its initial count on (`DeadlineSpec.filter_targets_of_count`). Counters, final counts
and warnings about shared variables are read off from the counts at the end, in which each pair has
its initial count and the number of its occurrences (`DeadlineSpec.exists_numbers`).
-/

namespace Punctual

open Text

/-! ## Tasks and targets of a pair -/

/-- What the occurrences of the target's task are counted by. -/
def Target.pair (g : Target) : String × String :=
  (g.unit, g.name)

/-- The tasks that are counted by the pair. -/
def tasksOf (p : String × String) (ts : List Task) : List Task :=
  ts.filter (·.pair = p)

/-- The variable that counts the pair. -/
def pairVariable (p : String × String) : String :=
  counterVariable p.1 p.2

section TasksOf

variable {p : String × String} {t : Task} {ts us : List Task}

theorem tasksOf_cons_self (t : Task) (ts : List Task) :
    tasksOf t.pair (t :: ts) = t :: tasksOf t.pair ts :=
  List.filter_cons_of_pos (by simp)

theorem tasksOf_cons_of_ne (h : t.pair ≠ p) : tasksOf p (t :: ts) = tasksOf p ts :=
  List.filter_cons_of_neg (by simpa using h)

theorem length_tasksOf (p : String × String) (ts : List Task) :
    (tasksOf p ts).length = ts.countP fun t => t.unit = p.1 ∧ t.name = p.2 := by
  rw [tasksOf, ← List.countP_eq_length_filter]
  refine List.countP_congr fun t _ => ?_
  simp [Task.pair, Prod.ext_iff]

theorem tasksOf_byDeadline (p : String × String) (ts : List Task) :
    tasksOf p (byDeadline ts) = byDeadline (tasksOf p ts) :=
  filter_byDeadline _ ts

end TasksOf

/-! ## Counting -/

namespace Counts

variable {counts next last : Counts} {p : String × String} {t : Task} {ts : List Task}

/-- Every pair is counted on by the number of its tasks. -/
theorem get_after (h : counts.after ts = .ok last) (p : String × String) :
    last.get p.1 p.2 = counts.get p.1 p.2 + (tasksOf p ts).length := by
  rw [get_of_foldlM h, length_tasksOf]

/-- Counting a task brings in its pair. -/
theorem mem_pairs_of_increment (h : counts.increment t.unit t.name = .ok next) :
    p ∈ next.pairs ↔ p ∈ counts.pairs ∨ t.pair = p := by
  rw [eq_set_of_increment h]
  change p ∈ (upsert t.pair _ counts.entries).map Prod.fst ↔ p ∈ counts.entries.map Prod.fst ∨ _
  rw [map_fst_upsert]
  split
  · next hknown =>
      exact ⟨.inl, fun h => h.elim id fun heq => heq ▸ hknown⟩
  · rw [List.mem_append, List.mem_singleton, eq_comm]

theorem mem_pairs_after (h : counts.after ts = .ok last) :
    p ∈ last.pairs ↔ p ∈ counts.pairs ∨ tasksOf p ts ≠ [] := by
  induction ts generalizing counts with
  | nil =>
      obtain rfl := except_pure_eq_ok.1 h
      simp [tasksOf]
  | cons t ts ih =>
      unfold after at h
      rw [List.foldlM_cons] at h
      obtain ⟨next, hnext, hrest⟩ := except_bind_eq_ok.1 h
      rw [ih hrest, mem_pairs_of_increment hnext, or_assoc]
      by_cases ht : t.pair = p
      · subst ht
        simp [tasksOf_cons_self]
      · simp [tasksOf_cons_of_ne ht, ht]

/-- There is room for all tasks of each pair just if they can be counted. -/
theorem exists_after (h : ∀ p, counts.get p.1 p.2 + (tasksOf p ts).length ≤ maxCount) :
    ∃ last, counts.after ts = .ok last := by
  rcases after_total counts ts with hok | ⟨-, t, -, hmany⟩
  · exact hok
  · have hroom := h t.pair
    rw [length_tasksOf] at hroom
    exact absurd hroom (Nat.not_le.2 hmany)

end Counts

namespace DeadlineSpec

variable {counts last : Counts} {ts : List Task} {targets : List Target}

/-- Whatever tasks are in between, the targets of a pair are numbered one after another. -/
theorem filter_targets_of_count (h : count counts ts = .ok (targets, last))
    (p : String × String) :
    targets.filter (·.pair = p) =
      (tasksOf p ts).mapIdx fun i t => ⟨p.1, p.2, counts.get p.1 p.2 + (i + 1), t.deadline⟩ := by
  induction ts generalizing counts targets with
  | nil =>
      obtain ⟨rfl, -⟩ := Prod.mk.inj (Except.ok.inj h)
      rfl
  | cons t ts ih =>
      obtain ⟨next, rest, hnext, hrest, rfl⟩ := exists_of_count_cons h
      by_cases ht : t.pair = p
      · subst ht
        -- the first occurrence takes the next number, and the others go on from there
        have hget : next.get t.unit t.name = counts.get t.unit t.name + 1 := by
          rw [Counts.get_of_increment hnext, if_pos ⟨rfl, rfl⟩]
        have hpair : (counts.targetOf t).pair = t.pair := rfl
        rw [List.filter_cons_of_pos (by simp [hpair]), ih hrest, tasksOf_cons_self,
          List.mapIdx_cons]
        simp only [Task.pair, hget, Counts.targetOf, Nat.zero_add, Nat.add_assoc,
          Nat.add_comm 1]
      · have hget : next.get p.1 p.2 = counts.get p.1 p.2 := by
          rw [Counts.get_of_increment hnext, if_neg (fun hsame => ht (Prod.ext hsame.1 hsame.2)),
            Nat.add_zero]
        have hpair : (counts.targetOf t).pair ≠ p := ht
        rw [List.filter_cons_of_neg (by simpa using hpair), ih hrest, tasksOf_cons_of_ne ht, hget]

/-- There is one target for each task, in the same order. -/
theorem map_targets_of_count (h : count counts ts = .ok (targets, last)) :
    targets.map (fun g => (g.pair, g.deadline)) = ts.map fun t => (t.pair, t.deadline) := by
  induction ts generalizing counts targets with
  | nil =>
      obtain ⟨rfl, -⟩ := Prod.mk.inj (Except.ok.inj h)
      rfl
  | cons t ts ih =>
      obtain ⟨next, rest, -, hrest, rfl⟩ := exists_of_count_cons h
      rw [List.map_cons, List.map_cons, ih hrest]
      rfl

/-- The counters are those of the pairs that have tasks, each with the number of its last one. -/
theorem countersBeyond_after (hdistinct : counts.Distinct) (h : counts.after ts = .ok last) :
    countersBeyond counts last = (last.pairs.filter (tasksOf · ts ≠ [])).map fun p =>
      ⟨pairVariable p, counts.get p.1 p.2 + (tasksOf p ts).length⟩ := by
  have hlast : last.Distinct := hdistinct.of_foldlM h
  have hbeyond : ∀ p ∈ last.pairs, (isBeyond counts ∘ fun p => (p, last.get p.1 p.2)) p =
      decide (tasksOf p ts ≠ []) := by
    intro p _
    have hmore : counts.get p.1 p.2 < last.get p.1 p.2 ↔ tasksOf p ts ≠ [] := by
      rw [Counts.get_after h, ← List.length_pos_iff]
      omega
    exact decide_eq_decide.2 hmore
  rw [countersBeyond_eq, hlast.entries_eq, List.filter_map, List.filter_congr hbeyond,
    List.map_map]
  refine List.map_congr_left fun p _ => ?_
  rw [Function.comp_apply, Counts.get_after h]
  rfl

theorem startsWith_specification (g : Target) : startsWith g.specification "SPEC " := by
  have hword : "SPEC ".toList = ("SPEC" ++ " ").toList := by decide
  rw [startsWith, List.isPrefixOf_iff_prefix, g.specification_eq, String.toList_append, hword]
  exact List.prefix_append _ _

theorem not_startsWith_of_mem_counterLines {gs : List Target} {l : String}
    (h : l ∈ Target.counterLines gs) : startsWith l "SPEC " = false := by
  rcases List.mem_append.1 h with hcounter | hempty
  · rcases List.mem_cons.1 hcounter with rfl | hcounter
    · decide
    · obtain ⟨g, -, rfl⟩ := List.mem_map.1 hcounter
      rw [startsWith, String.toList_append]
      rfl
  · rw [List.mem_singleton.1 hempty]
    decide

/-- Of the lines of a specification, those of the claims begin with the word for it. -/
theorem filter_lines_text {spec : DeadlineSpec} (gs : List Target)
    (h : spec.counters = gs.map fun g => ⟨g.counter, g.count⟩) :
    (lines spec.text).filter (startsWith · "SPEC ") = spec.targets.map Target.specification := by
  have hcounters : ((if gs.isEmpty then [] else
      [(Target.counterLines gs, Target.countersSection gs)]).flatMap Prod.fst).filter
        (startsWith · "SPEC ") = [] := by
    refine List.filter_eq_nil_iff.2 fun l hl => ?_
    split at hl
    · simp at hl
    · rw [List.flatMap_singleton] at hl
      simp [not_startsWith_of_mem_counterLines hl]
  have hclaims : (spec.targets.map fun g => ([g.specification], g.claimSection)).flatMap Prod.fst =
      spec.targets.map Target.specification := by
    rw [List.flatMap_map, List.map_eq_flatMap]
  rw [lines_text_blocks h, blocks, List.flatMap_append, List.filter_append, hcounters, hclaims,
    List.nil_append, List.filter_eq_self]
  intro l hl
  obtain ⟨g, -, rfl⟩ := List.mem_map.1 hl
  exact startsWith_specification g

end DeadlineSpec

/-! ## Shared variables -/

namespace Counts

/-- The pairs of each variable, in order of the variables' first pairs. -/
theorem foldl_groupByVariable (ps : List (String × String)) :
    (ps.foldl groupByVariable []).map Prod.fst =
        (firstOfEach pairVariable ps).map pairVariable ∧
      ∀ v, (find? v (ps.foldl groupByVariable [])).getD [] = ps.filter (pairVariable · = v) := by
  induction ps using List.reverseRecOn with
  | nil => exact ⟨rfl, fun _ => rfl⟩
  | append_singleton ps p ih =>
      obtain ⟨hkeys, hgroups⟩ := ih
      have hstep : (ps ++ [p]).foldl groupByVariable [] =
          upsert (pairVariable p) (ps.filter (pairVariable · = pairVariable p) ++ [p])
            (ps.foldl groupByVariable []) := by
        rw [← hgroups, List.foldl_append]
        rfl
      rw [hstep]
      constructor
      · exact map_fst_upsert_firstOfEach hkeys p _
      · intro v
        rw [List.filter_append]
        by_cases hv : v = pairVariable p
        · rw [hv, find?_upsert_self]
          simp
        · rw [find?_upsert_of_ne hv, hgroups]
          simp [Ne.symm hv]

theorem collisions_eq (c : Counts) :
    c.collisions = (((firstOfEach pairVariable c.pairs).map pairVariable).map fun v =>
      (v, c.pairs.filter (pairVariable · = v))).filter fun (_, ps) => 1 < ps.length := by
  obtain ⟨hkeys, hgroups⟩ := foldl_groupByVariable c.pairs
  have hnodup : ((c.pairs.foldl groupByVariable []).map Prod.fst).Nodup := by
    rw [hkeys]
    exact nodup_map_firstOfEach _
  rw [collisions, entries_eq_of_nodup hnodup [], hkeys]
  simp only [hgroups]

/-- The warnings are about the variables that have more than one pair, and name all of these. -/
theorem collisions_spec (c : Counts) :
    (c.collisions.map Prod.fst).Nodup ∧
      ∀ v ps, (v, ps) ∈ c.collisions ↔ ps = c.pairs.filter (pairVariable · = v) ∧ 2 ≤ ps.length := by
  rw [collisions_eq]
  constructor
  · refine List.Nodup.sublist (List.filter_sublist.map Prod.fst) ?_
    rw [List.map_map]
    exact (List.map_id _).symm ▸ nodup_map_firstOfEach c.pairs
  · intro v ps
    rw [List.mem_filter, List.mem_map]
    constructor
    · rintro ⟨⟨w, -, hw⟩, hshared⟩
      obtain ⟨rfl, rfl⟩ := Prod.mk.inj hw
      exact ⟨rfl, of_decide_eq_true hshared⟩
    · rintro ⟨rfl, hshared⟩
      obtain ⟨p, hp⟩ := List.exists_mem_of_length_pos (Nat.lt_of_lt_of_le Nat.two_pos hshared)
      obtain ⟨hmem, hv⟩ := List.mem_filter.1 hp
      exact ⟨⟨v, mem_map_firstOfEach.2 ⟨p, hmem, of_decide_eq_true hv⟩, rfl⟩,
        decide_eq_true hshared⟩

end Counts

/-! ## Specifications -/

namespace DeadlineSpec

/-- The specification numbers the occurrences of a schedule, from the initial counts on. -/
structure Numbers (initial : Counts) (s : Schedule) (spec : DeadlineSpec) : Prop where
  /-- Every occurrence of a task has one target, earliest deadline first. -/
  occurrences : ∃ us, StablyOrdered s.units.tasks us ∧
    spec.targets.map (fun g => (g.pair, g.deadline)) = us.map fun t => (t.pair, t.deadline)
  /-- The targets of a pair are numbered by the deadlines of its occurrences. -/
  numbered : ∀ p, ∃ us, StablyOrdered (tasksOf p s.units.tasks) us ∧
    spec.targets.filter (·.pair = p) =
      us.mapIdx fun i t => ⟨p.1, p.2, initial.get p.1 p.2 + (i + 1), t.deadline⟩
  /-- The last number of a pair is its final count. -/
  counted : ∀ p, spec.finalCounts.get p.1 p.2 =
    initial.get p.1 p.2 + (tasksOf p s.units.tasks).length
  /-- The pairs that are counted, without repetition. -/
  distinct : spec.finalCounts.Distinct
  pairs : ∀ p, p ∈ spec.finalCounts.pairs ↔ p ∈ initial.pairs ∨ tasksOf p s.units.tasks ≠ []
  /-- Of these pairs, one counter is declared for each that has occurrences. -/
  declared : spec.counters =
    (spec.finalCounts.pairs.filter (tasksOf · s.units.tasks ≠ [])).map fun p =>
      ⟨pairVariable p, initial.get p.1 p.2 + (tasksOf p s.units.tasks).length⟩
  /-- The text has one claim for each target. -/
  claims : (lines spec.text).filter (startsWith · "SPEC ") = spec.targets.map Target.specification
  /-- The warnings name the variables that two or more of the pairs share, and all pairs of each. -/
  warned : (spec.finalCounts.collisions.map Prod.fst).Nodup ∧
    ∀ v ps, (v, ps) ∈ spec.finalCounts.collisions ↔
      ps = spec.finalCounts.pairs.filter (pairVariable · = v) ∧ 2 ≤ ps.length

/-- As long as no count gets greater than the greatest one, every schedule has a specification, and it
numbers the occurrences of each pair by itself. -/
theorem exists_numbers (s : Schedule) {initial : Counts} (hdistinct : initial.Distinct)
    (hroom : ∀ p, initial.get p.1 p.2 + (tasksOf p s.units.tasks).length ≤ maxCount) :
    ∃ spec, ofSchedule initial s = .ok spec ∧ spec.Numbers initial s := by
  have hordered := stablyOrdered_byDeadline s.units.tasks
  have hlength (p : String × String) :
      (tasksOf p s.ordered).length = (tasksOf p s.units.tasks).length :=
    (hordered.perm.filter _).length_eq
  have hnil (p : String × String) : tasksOf p s.ordered ≠ [] ↔ tasksOf p s.units.tasks ≠ [] := by
    rw [← List.length_pos_iff, ← List.length_pos_iff, hlength]
  obtain ⟨last, hlast⟩ := Counts.exists_after fun p => (hlength p).symm ▸ hroom p
  obtain ⟨targets, hcount, -⟩ := count_of_after hlast
  have hcounters : countersBeyond initial last =
      (last.pairs.filter (tasksOf · s.units.tasks ≠ [])).map fun p =>
        ⟨pairVariable p, initial.get p.1 p.2 + (tasksOf p s.units.tasks).length⟩ := by
    rw [countersBeyond_after hdistinct hlast]
    simp only [hlength, hnil]
  refine ⟨⟨countersBeyond initial last, targets, last⟩, ?_, ?_⟩
  · rw [ofSchedule, hcount]
  · constructor
    case occurrences => exact ⟨_, hordered, map_targets_of_count hcount⟩
    case numbered =>
      intro p
      refine ⟨_, stablyOrdered_byDeadline _, ?_⟩
      rw [filter_targets_of_count hcount, Schedule.ordered, tasksOf_byDeadline]
    case counted => exact fun p => (Counts.get_after hlast p).trans (by rw [hlength])
    case distinct => exact hdistinct.of_foldlM hlast
    case pairs => exact fun p => (Counts.mem_pairs_after hlast).trans (by rw [hnil])
    case declared => exact hcounters
    case claims =>
      refine filter_lines_text ((last.pairs.filter (tasksOf · s.units.tasks ≠ [])).map fun p =>
        ⟨p.1, p.2, initial.get p.1 p.2 + (tasksOf p s.units.tasks).length, 0⟩) ?_
      rw [List.map_map]
      exact hcounters
    case warned => exact last.collisions_spec

/-- Two tasks that share a variable. The second occurrence of one of them is due first, at the same
time as the other task. -/
def entwinedUnits : Units :=
  [("a", [⟨"b_c", ⟨0, 5⟩⟩, ⟨"b_c", ⟨0, 2⟩⟩]), ("a_b", [⟨"c", ⟨0, 2⟩⟩])]

theorem entwinedUnits_fitIn : entwinedUnits.tasks.all fun t => t.window.FitsIn ⟨0, 9⟩ := by
  decide

def entwined : Schedule where
  horizon := ⟨0, 9⟩
  units := entwinedUnits
  opens_le_closes := Schedule.interleaved.opens_le_closes
  fitsIn t ht := of_decide_eq_true (List.all_eq_true.1 entwinedUnits_fitIn t ht)

/-- Counts of a task that is over, of one that is to come, and of one that never does. -/
def seeded : Counts :=
  ⟨[(("x", "y"), 7), (("a_b", "c"), 0), (("u", "v"), 0)]⟩

theorem distinct_seeded : seeded.Distinct := by
  have hpairs : seeded.pairs.Nodup := by decide
  exact hpairs

theorem get_seeded_le (unit name : String) : seeded.get unit name ≤ 7 := by
  unfold Counts.get seeded find? find? find? find?
  split
  · decide
  · split
    · decide
    · split
      · decide
      · decide

theorem exists_numbers_entwined :
    seeded.Distinct ∧
    (∀ p, seeded.get p.1 p.2 + (tasksOf p entwined.units.tasks).length ≤ maxCount) ∧
    ∃ spec, ofSchedule seeded entwined = .ok spec ∧ spec.Numbers seeded entwined ∧
      spec.targets = [⟨"a", "b_c", 1, 2⟩, ⟨"a_b", "c", 1, 2⟩, ⟨"a", "b_c", 2, 5⟩] ∧
      spec.counters = [⟨"COUNT_a_b_c", 1⟩, ⟨"COUNT_a_b_c", 2⟩] ∧
      spec.finalCounts.collisions = [("COUNT_a_b_c", [("a_b", "c"), ("a", "b_c")])] := by
  have hroom (p : String × String) :
      seeded.get p.1 p.2 + (tasksOf p entwined.units.tasks).length ≤ maxCount := by
    have hget := get_seeded_le p.1 p.2
    have hlength : (tasksOf p entwined.units.tasks).length ≤ 3 :=
      List.length_filter_le _ entwined.units.tasks
    have hmax : 10 ≤ maxCount := by decide
    omega
  obtain ⟨spec, hspec, hnumbers⟩ := exists_numbers entwined distinct_seeded hroom
  have hshown : ofSchedule seeded entwined =
      .ok ⟨[⟨"COUNT_a_b_c", 1⟩, ⟨"COUNT_a_b_c", 2⟩],
        [⟨"a", "b_c", 1, 2⟩, ⟨"a_b", "c", 1, 2⟩, ⟨"a", "b_c", 2, 5⟩],
        ⟨[(("x", "y"), 7), (("a_b", "c"), 1), (("u", "v"), 0), (("a", "b_c"), 2)]⟩⟩ := by
    decide +kernel
  obtain rfl := Except.ok.inj (hspec.symm.trans hshown)
  exact ⟨distinct_seeded, hroom, _, hspec, hnumbers, rfl, rfl, by decide +kernel⟩

end DeadlineSpec

end Punctual
