import Punctual.Proofs.Specification.Chaining
import Punctual.Proofs.Specification.Sections

/-!
# Ranges of counters

Occurrences are counted for each pair of unit and task, but a counter is declared for each variable,
and different pairs can share one. The first declaration of a variable stays, that of the pair whose
first deadline is the earliest (`upperOf`). So every target has a counter that is declared once, and
all of them lie in the range of their counters just if no pair that shares a variable occurs more
often than the first one (`Schedule.declares_targets`).
-/

namespace Punctual

open Fragment

/-! ## Occurrences of tasks -/

namespace Task

/-- What the occurrences of a task are counted by. -/
def pair (t : Task) : String × String :=
  (t.unit, t.name)

/-- The variable that counts the occurrences. -/
def counter (t : Task) : String :=
  counterVariable t.unit t.name

theorem counter_eq_of_pair_eq {t u : Task} (h : t.pair = u.pair) : t.counter = u.counter := by
  obtain ⟨hunit, hname⟩ := Prod.mk.inj h
  unfold counter
  rw [hunit, hname]

end Task

/-- The number of occurrences of a task in a list. -/
def occurrencesIn (ts : List Task) (t : Task) : Nat :=
  ts.countP fun u => u.unit = t.unit ∧ u.name = t.name

theorem occurrencesIn_eq_of_pair_eq {ts : List Task} {t u : Task} (h : t.pair = u.pair) :
    occurrencesIn ts t = occurrencesIn ts u := by
  obtain ⟨hunit, hname⟩ := Prod.mk.inj h
  unfold occurrencesIn
  rw [hunit, hname]

section Lists

variable {α : Type} {p : α → Bool} {as : List α} {a : α} {i : Nat}

/-- Before the last of some elements there are all others of them. -/
theorem exists_last_of_countP (ha : a ∈ as) (hp : p a) :
    ∃ i b, as[i]? = some b ∧ p b ∧ (as.take i).countP p + 1 = as.countP p := by
  induction as using List.reverseRecOn with
  | nil => simp at ha
  | append_singleton as b ih =>
      cases hb : p b with
      | true =>
          refine ⟨as.length, b, by simp, hb, ?_⟩
          rw [List.take_left, List.countP_append, List.countP_singleton, if_pos hb]
      | false =>
          have hmem : a ∈ as := by
            rcases List.mem_append.1 ha with hmem | hself
            · exact hmem
            · rw [List.mem_singleton.1 hself, hb] at hp
              simp at hp
          obtain ⟨i, c, hi, hc, hcount⟩ := ih hmem
          have hlt : i < as.length := (List.getElem?_eq_some_iff.1 hi).1
          refine ⟨i, c, ?_, hc, ?_⟩
          · rw [List.getElem?_append_left hlt, hi]
          · rw [List.take_append_of_le_length (Nat.le_of_lt hlt), hcount, List.countP_append]
            simp [hb]

theorem countP_take_succ_le (hi : as[i]? = some a) (hp : p a) :
    (as.take i).countP p + 1 ≤ as.countP p := by
  have hnext : (as.take (i + 1)).countP p = (as.take i).countP p + 1 := by
    rw [List.take_add_one, hi, List.countP_append, Option.toList_some, List.countP_singleton,
      if_pos hp]
  rw [← hnext]
  exact (List.take_sublist _ _).countP_le

end Lists

/-! ## Counts and counters -/

namespace Counts

variable {last : Counts} {ts : List Task}

/-- Pairs are kept in the order in which they were first counted. -/
theorem pairs_of_after (h : empty.after ts = .ok last) :
    last.pairs = (firstOfEach Task.pair ts).map Task.pair := by
  induction ts using List.reverseRecOn generalizing last with
  | nil =>
      obtain rfl := except_pure_eq_ok.1 h
      rfl
  | append_singleton ts t ih =>
      unfold after at h
      rw [List.foldlM_append] at h
      obtain ⟨before, hbefore, hstep⟩ := except_bind_eq_ok.1 h
      have hpairs := ih hbefore
      rw [List.foldlM_cons] at hstep
      obtain ⟨next, hnext, hdone⟩ := except_bind_eq_ok.1 hstep
      obtain rfl := except_pure_eq_ok.1 hdone
      rw [eq_set_of_increment hnext]
      exact map_fst_upsert_firstOfEach hpairs t _

theorem Distinct.entries_eq {counts : Counts} (h : counts.Distinct) :
    counts.entries = counts.pairs.map fun p => (p, counts.get p.1 p.2) :=
  entries_eq_of_nodup h 0

/-- Counted from nothing, every task has its number of occurrences. -/
theorem get_of_after (h : empty.after ts = .ok last) (t : Task) :
    last.get t.unit t.name = occurrencesIn ts t := by
  have hnone : empty.get t.unit t.name = 0 := rfl
  have hget := get_of_foldlM h t.unit t.name
  rwa [hnone, Nat.zero_add] at hget

theorem entries_of_after (h : empty.after ts = .ok last) :
    last.entries = (firstOfEach Task.pair ts).map fun t => (t.pair, occurrencesIn ts t) := by
  have hdistinct : last.Distinct := distinct_empty.of_foldlM h
  rw [hdistinct.entries_eq, pairs_of_after h, List.map_map]
  refine List.map_congr_left fun t _ => ?_
  exact congrArg (Prod.mk t.pair) (get_of_after h t)

end Counts

namespace DeadlineSpec

variable {last : Counts} {ts : List Task} {targets : List Target}

/-- The counters that a specification needs, as targets: the last occurrence of each task. -/
def lastOccurrences (ts : List Task) : List Target :=
  (firstOfEach Task.pair ts).map fun t => ⟨t.unit, t.name, occurrencesIn ts t, t.deadline⟩

theorem countersBeyond_of_after (h : Counts.empty.after ts = .ok last) :
    countersBeyond .empty last = (lastOccurrences ts).map fun g => ⟨g.counter, g.count⟩ := by
  have hall : last.entries.filter (isBeyond .empty) = last.entries := by
    refine List.filter_eq_self.2 fun e he => ?_
    rw [Counts.entries_of_after h] at he
    obtain ⟨t, ht, rfl⟩ := List.mem_map.1 he
    have hpos : 0 < occurrencesIn ts t :=
      List.countP_pos_iff.2 ⟨t, mem_of_mem_firstOfEach ht, by simp⟩
    exact decide_eq_true hpos
  rw [countersBeyond_eq, hall, Counts.entries_of_after h, lastOccurrences, List.map_map,
    List.map_map]
  rfl

/-- The first declaration of a variable is that of the first task that is counted by it. -/
theorem find?_lastOccurrences {v : String} {first : Task}
    (h : ts.find? (·.counter = v) = some first) :
    ((lastOccurrences ts).map Target.declared).find? (·.name = v) =
      some ⟨.state, v, "0.." ++ toString (occurrencesIn ts first)⟩ := by
  have hname : first.counter = v := by simpa using List.find?_some h
  have hfound : (firstOfEach Task.pair ts).find? (·.counter = v) = some first := by
    rw [find?_firstOfEach _ ts, h]
    intro t u hpair
    rw [Task.counter_eq_of_pair_eq hpair]
  rw [lastOccurrences, List.map_map, List.find?_map]
  change Option.map _ ((firstOfEach Task.pair ts).find? (·.counter = v)) = _
  rw [hfound, ← hname]
  rfl

theorem length_of_count {counts : Counts} (h : count counts ts = .ok (targets, last)) :
    targets.length = ts.length := by
  induction ts generalizing counts targets with
  | nil =>
      obtain ⟨rfl, -⟩ := Prod.mk.inj (Except.ok.inj h)
      rfl
  | cons t ts ih =>
      obtain ⟨next, rest, -, hrest, rfl⟩ := exists_of_count_cons h
      rw [List.length_cons, List.length_cons, ih hrest]

/-- Where counting breaks off, there are no targets. -/
theorem count_of_after_fault {counts : Counts} {f : Fault} (h : counts.after ts = .error f) :
    count counts ts = .error f := by
  induction ts generalizing counts with
  | nil => simp [Counts.after, pure, Except.pure] at h
  | cons t ts ih =>
      by_cases hroom : counts.get t.unit t.name < maxCount
      · have hnext := Counts.increment_of_lt hroom
        rw [Counts.after_cons hnext] at h
        rw [count_cons_of_increment hnext, ih h]
        rfl
      · rw [Counts.after_cons_of_not_lt hroom] at h
        obtain rfl := Except.error.inj h
        exact count_cons_of_fault (Counts.increment_of_not_lt hroom)

/-- The targets are the occurrences of the tasks, each with its number. -/
theorem mem_targets_iff (h : Counts.empty.after ts = .ok last)
    (hcount : count .empty ts = .ok (targets, last)) (g : Target) :
    g ∈ targets ↔ ∃ i t, ts[i]? = some t ∧
      g = ⟨t.unit, t.name, occurrencesIn (ts.take i) t + 1, t.deadline⟩ := by
  obtain ⟨targets', hcount', hat⟩ := count_of_after h
  obtain ⟨rfl, -⟩ := Prod.mk.inj (Except.ok.inj (hcount.symm.trans hcount'))
  have htarget : ∀ i t, ts[i]? = some t →
      targets[i]? =
        some (⟨t.unit, t.name, occurrencesIn (ts.take i) t + 1, t.deadline⟩ : Target) := by
    intro i t hi
    obtain ⟨before, hbefore, -, hnext⟩ := hat i t hi
    rw [hnext, Counts.targetOf, Counts.get_of_after hbefore]
  constructor
  · intro hg
    obtain ⟨i, hi⟩ := List.mem_iff_getElem?.1 hg
    have hlt : i < ts.length := by
      rw [← length_of_count hcount]
      exact (List.getElem?_eq_some_iff.1 hi).1
    have hsome : ts[i]? = some ts[i] := List.getElem?_eq_getElem hlt
    exact ⟨i, ts[i], hsome, Option.some.inj (hi.symm.trans (htarget i _ hsome))⟩
  · rintro ⟨i, t, hi, rfl⟩
    exact List.mem_of_getElem? (htarget i t hi)

end DeadlineSpec

/-! ## Declared ranges -/

namespace Schedule

variable {s : Schedule}

/-- The number of occurrences of a task. -/
def occurrences (s : Schedule) (t : Task) : Nat :=
  occurrencesIn s.ordered t

/-- The upper bound of a variable: the number of occurrences of the task with the earliest deadline
among those that it counts. -/
def upperOf (s : Schedule) (v : String) : Nat :=
  match s.ordered.find? (·.counter = v) with
  | some first => s.occurrences first
  | none => 0

/-- The range that is declared for a variable. -/
def rangeOf (s : Schedule) (v : String) : String :=
  "0.." ++ toString (s.upperOf v)

/-- If no two tasks share a variable, every task lies in the range of its variable. -/
theorem occurrences_le_upperOf_of_unshared
    (h : ∀ t ∈ s.ordered, ∀ u ∈ s.ordered, t.counter = u.counter → t.pair = u.pair) {t : Task}
    (ht : t ∈ s.ordered) : s.occurrences t ≤ s.upperOf t.counter := by
  unfold upperOf
  cases hfirst : s.ordered.find? (·.counter = t.counter) with
  | none => exact absurd (List.find?_eq_none.1 hfirst t ht) (by simp)
  | some first =>
      have hcounter : first.counter = t.counter := by simpa using List.find?_some hfirst
      have hpair := h t ht first (List.mem_of_find?_eq_some hfirst) hcounter.symm
      exact Nat.le_of_eq (occurrencesIn_eq_of_pair_eq hpair)

/-- All targets lie in their ranges just if all tasks do. -/
theorem targets_le_upperOf_iff {last : Counts} {targets : List Target}
    (h : Counts.empty.after s.ordered = .ok last)
    (hcount : DeadlineSpec.count .empty s.ordered = .ok (targets, last)) :
    (∀ g ∈ targets, g.count ≤ s.upperOf g.counter) ↔
      ∀ t ∈ s.ordered, s.occurrences t ≤ s.upperOf t.counter := by
  have hmem := DeadlineSpec.mem_targets_iff h hcount
  constructor
  · intro htargets t ht
    obtain ⟨i, u, hi, hu, hlast⟩ := exists_last_of_countP
      (p := fun u => decide (u.unit = t.unit ∧ u.name = t.name)) ht (by simp)
    have hpair : u.pair = t.pair := by
      obtain ⟨hunit, hname⟩ := of_decide_eq_true hu
      unfold Task.pair
      rw [hunit, hname]
    have htarget := htargets _ ((hmem _).2 ⟨i, u, hi, rfl⟩)
    have hoccurrences : occurrencesIn (s.ordered.take i) u + 1 = s.occurrences t := by
      rw [occurrencesIn_eq_of_pair_eq hpair]
      exact hlast
    rw [← Task.counter_eq_of_pair_eq hpair, ← hoccurrences]
    exact htarget
  · intro htasks g hg
    obtain ⟨i, t, hi, rfl⟩ := (hmem g).1 hg
    have hle : occurrencesIn (s.ordered.take i) t + 1 ≤ s.occurrences t :=
      countP_take_succ_le hi (by simp)
    exact Nat.le_trans hle (htasks t (List.mem_of_getElem? hi))

/-- Whatever is combined with a specification after it, the model declares the counter of each target
once, with the range of its variable. -/
theorem declares_of_isCombined {spec : DeadlineSpec} {options : CombineOptions}
    {foreign : List String} {model : Model}
    (hcounters : spec.counters =
      (DeadlineSpec.lastOccurrences s.ordered).map fun g => ⟨g.counter, g.count⟩)
    (h : IsCombined (spec.text :: foreign) options .empty model) {t : Task}
    (ht : t ∈ s.ordered) :
    model.sections.filter (Section.declares t.counter) =
      [Merge.declarationSection .var t.counter (s.rangeOf t.counter)] := by
  obtain ⟨plugins, m, -, hmerged, rfl⟩ := h
  obtain ⟨hdeclared, -⟩ := DeadlineSpec.declaredIn_text hcounters
  obtain ⟨first, hfirst⟩ : ∃ first, s.ordered.find? (·.counter = t.counter) = some first :=
    Option.isSome_iff_exists.1 (List.find?_isSome.2 ⟨t, ht, by simp⟩)
  have hrange : s.rangeOf t.counter = "0.." ++ toString (occurrencesIn s.ordered first) := by
    rw [rangeOf, upperOf, hfirst]
    rfl
  have hlegible : ∀ d ∈ (DeadlineSpec.lastOccurrences s.ordered).map Target.declared,
      IsVariableName d.name ∧ IsTypeText d.type := by
    intro d hd
    obtain ⟨g, -, rfl⟩ := List.mem_map.1 hd
    exact ⟨g.isVariableName_counter, g.isTypeText_range⟩
  have hspec : ∀ m₁, Ends (mergeFragment (parse spec.text)) (.start .empty) (.ok ⟨⟩) m₁ →
      m₁.Holds t.counter (s.rangeOf t.counter) [] := by
    intro m₁ hends
    have hgathers := (Merge.gathers_start .empty).mergeFragment hends
    rw [List.nil_append, hdeclared] at hgathers
    refine hgathers.holds hlegible ?_
    rw [hrange]
    exact DeadlineSpec.find?_lastOccurrences hfirst
  have hholds := Merge.Holds.merged hspec hmerged
  rw [filter_applyPlugins, hholds.declared]
  intro declaring hdeclares
  rw [Section.isEssential, (Bool.and_eq_true_iff.1 hdeclares).1, Bool.true_or]

/-- A specification can be combined by itself. -/
theorem exists_combined {spec : DeadlineSpec} {gs : List Target}
    (hcounters : spec.counters = gs.map fun g => ⟨g.counter, g.count⟩) :
    ∃ (model : Model) (context : Context) (log : Log),
      Ends (combine [spec.text] .none .empty) [] (.ok (model.text, context)) log ∧
        IsCombined [spec.text] .none .empty model := by
  have hreadable : ∀ f ∈ [spec.text].map parse, ∀ s ∈ f.sections, s.kind.isDeclaration →
      ∀ text ∈ s.declarations, ∃ entry, parseDeclaration text = .ok entry := by
    intro f hf
    rw [List.mem_singleton.1 hf]
    exact (DeadlineSpec.declaredIn_text hcounters).2
  obtain ⟨m, hmerged⟩ := exists_ends_mergeFragments hreadable (.start .empty)
  obtain ⟨log, hends⟩ := exists_ends_combine_none hmerged []
  have hvariables : Ends (mergeWithVariables ([spec.text].map parse) CombineOptions.none.declarations)
      (.start .empty) (.ok ⟨⟩) m := ends_bind_ok.2 ⟨⟨⟩, m, hmerged, rfl⟩
  exact ⟨m.model, m.context, log, hends, [], m, rfl, hvariables, rfl⟩

/-- A schedule is specified from nothing unless a task occurs more often than a count can say. Its
specification can be combined, and any model that begins with it declares the counter of each target
once. The upper bound is the number of occurrences of the first task that the counter counts, so all
targets lie in their ranges just if no other task with the same counter occurs more often. -/
theorem declares_targets (s : Schedule) :
    (DeadlineSpec.ofSchedule .empty s = .error .sumOutOfRange ∧
        ∃ t ∈ s.ordered, maxCount < s.occurrences t) ∨
      ∃ spec, DeadlineSpec.ofSchedule .empty s = .ok spec ∧
        (∃ (model : Model) (context : Context) (log : Log),
          Ends (combine [spec.text] .none .empty) [] (.ok (model.text, context)) log ∧
            IsCombined [spec.text] .none .empty model) ∧
        (∀ foreign options model, IsCombined (spec.text :: foreign) options .empty model →
          ∀ g ∈ spec.targets, model.sections.filter (Section.declares g.counter) =
            [⟨.var, "VAR", [g.counter ++ " : 0.." ++ toString (s.upperOf g.counter) ++ ";"]⟩]) ∧
        ((∀ g ∈ spec.targets, g.count ≤ s.upperOf g.counter) ↔
          ∀ t ∈ s.ordered, s.occurrences t ≤ s.upperOf t.counter) := by
  rcases Counts.after_total .empty s.ordered with ⟨last, hlast⟩ | ⟨hfault, t, ht, hmany⟩
  · obtain ⟨targets, hcount, -⟩ := DeadlineSpec.count_of_after hlast
    have hcounters := DeadlineSpec.countersBeyond_of_after hlast
    refine .inr ⟨⟨DeadlineSpec.countersBeyond .empty last, targets, last⟩, ?_,
      exists_combined hcounters, ?_, targets_le_upperOf_iff hlast hcount⟩
    · rw [DeadlineSpec.ofSchedule, hcount]
    · intro foreign options model hcombined g hg
      obtain ⟨i, t, hi, rfl⟩ := (DeadlineSpec.mem_targets_iff hlast hcount g).1 hg
      have hdeclares := declares_of_isCombined hcounters hcombined (List.mem_of_getElem? hi)
      have hline (v : String) : v ++ " : 0.." ++ toString (s.upperOf v) ++ ";" =
          v ++ " : " ++ s.rangeOf v ++ ";" := by
        have hbetween : " : 0.." = " : " ++ "0.." := by decide
        rw [rangeOf, hbetween]
        simp only [String.append_assoc]
      rw [hline]
      exact hdeclares
  · refine .inl ⟨?_, t, ht, ?_⟩
    · rw [DeadlineSpec.ofSchedule, DeadlineSpec.count_of_after_fault hfault]
    · have hnone : Counts.empty.get t.unit t.name = 0 := rfl
      rw [hnone, Nat.zero_add] at hmany
      exact hmany

theorem crossing_fitsIn :
    (Units.tasks [("a", [⟨"b_c", ⟨0, 1⟩⟩]), ("a_b", [⟨"c", ⟨0, 2⟩⟩, ⟨"c", ⟨0, 3⟩⟩])]).all fun t =>
      t.window.FitsIn ⟨0, 9⟩ := by
  decide

/-- Two tasks that share a counter, of which the one with the later deadlines occurs twice. -/
def crossing : Schedule where
  horizon := ⟨0, 9⟩
  units := [("a", [⟨"b_c", ⟨0, 1⟩⟩]), ("a_b", [⟨"c", ⟨0, 2⟩⟩, ⟨"c", ⟨0, 3⟩⟩])]
  opens_le_closes := interleaved.opens_le_closes
  fitsIn t ht := of_decide_eq_true (List.all_eq_true.1 crossing_fitsIn t ht)

/-- The second occurrence is out of the range that is declared for its counter. -/
theorem crossing_declares_targets :
    ∃ spec, DeadlineSpec.ofSchedule .empty crossing = .ok spec ∧
      (∃ model, IsCombined [spec.text] .none .empty model ∧
        model.sections.filter (Section.declares "COUNT_a_b_c") =
          [⟨.var, "VAR", ["COUNT_a_b_c : 0..1;"]⟩]) ∧
      ∃ g ∈ spec.targets, g.counter = "COUNT_a_b_c" ∧ g.count = 2 := by
  rcases declares_targets crossing with ⟨hfault, -⟩ | ⟨spec, hspec, hcombined, hdeclares, -⟩
  · exact absurd hfault (by decide +kernel)
  · obtain ⟨model, context, log, -, hmodel⟩ := hcombined
    have htargets : spec.targets =
        [⟨"a", "b_c", 1, 1⟩, ⟨"a_b", "c", 1, 2⟩, ⟨"a_b", "c", 2, 3⟩] := by
      have hshown : (DeadlineSpec.ofSchedule .empty crossing).map DeadlineSpec.targets =
          .ok [⟨"a", "b_c", 1, 1⟩, ⟨"a_b", "c", 1, 2⟩, ⟨"a_b", "c", 2, 3⟩] := by
        decide +kernel
      rw [hspec] at hshown
      exact Except.ok.inj hshown
    have hmem : (⟨"a_b", "c", 2, 3⟩ : Target) ∈ spec.targets := by
      rw [htargets]
      decide
    have hcounter : Target.counter ⟨"a_b", "c", 2, 3⟩ = "COUNT_a_b_c" := by decide +kernel
    have hupper : crossing.upperOf "COUNT_a_b_c" = 1 := by decide +kernel
    have hdeclared := hdeclares [] .none model hmodel _ hmem
    rw [hcounter, hupper] at hdeclared
    exact ⟨spec, hspec, ⟨model, hmodel, hdeclared⟩, _, hmem, hcounter, rfl⟩

end Schedule

end Punctual
