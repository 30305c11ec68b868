import Punctual.Proofs.Model.Merging

/-!
# Repeated constraints

Two sections state the same constraint if they are of one kind and their bodies agree up to blanks
at the ends of lines and lines of blanks. Of the sections that state one constraint, the plugin
against repeated constraints leaves the first, and it leaves all sections that state none
(`dedupConstraints_leaves`). Whether a section goes depends on the sections in front of it only
(`dedup_concat`), so that everything follows by adding one section at the end.
-/

namespace Punctual

/-! ## Sections that state the same -/

namespace Section

variable {s t u : Section}

/-- The sections state the same constraint. -/
structure StatesSame (s t : Section) : Prop where
  isConstraint : s.kind.isConstraint
  kind : s.kind = t.kind
  lines : trimmedLines s.body = trimmedLines t.body

instance (s t : Section) : Decidable (s.StatesSame t) :=
  decidable_of_iff
    (s.kind.isConstraint ∧ s.kind = t.kind ∧ trimmedLines s.body = trimmedLines t.body)
    ⟨fun h => ⟨h.1, h.2.1, h.2.2⟩, fun h => ⟨h.isConstraint, h.kind, h.lines⟩⟩

theorem statesSame_self (h : s.kind.isConstraint) : s.StatesSame s :=
  ⟨h, rfl, rfl⟩

theorem StatesSame.symm (h : s.StatesSame t) : t.StatesSame s := by
  refine ⟨?_, h.kind.symm, h.lines.symm⟩
  rw [← h.kind]
  exact h.isConstraint

theorem StatesSame.trans (hst : s.StatesSame t) (htu : t.StatesSame u) : s.StatesSame u :=
  ⟨hst.isConstraint, hst.kind.trans htu.kind, hst.lines.trans htu.lines⟩

end Section

namespace Plugin

variable {s t : Section} {front ss : List Section} {seen : List (SectionKind × List String)}

theorem constraint?_eq_some_iff {c : SectionKind × List String} :
    constraint? s = some c ↔ s.kind.isConstraint ∧ (s.kind, trimmedLines s.body) = c := by
  unfold constraint?
  by_cases h : s.kind.isConstraint
  · simp [h]
  · simp [h]

theorem statesSame_iff :
    s.StatesSame t ↔ ∃ c, constraint? s = some c ∧ constraint? t = some c := by
  constructor
  · intro h
    refine ⟨(t.kind, trimmedLines t.body), ?_, ?_⟩
    · exact constraint?_eq_some_iff.2 ⟨h.isConstraint, by rw [h.kind, h.lines]⟩
    · exact constraint?_eq_some_iff.2 ⟨h.symm.isConstraint, rfl⟩
  · rintro ⟨c, hs, ht⟩
    obtain ⟨hconstraint, rfl⟩ := constraint?_eq_some_iff.1 hs
    obtain ⟨-, heq⟩ := constraint?_eq_some_iff.1 ht
    obtain ⟨hkind, hlines⟩ := Prod.mk.inj heq
    exact ⟨hconstraint, hkind.symm, hlines.symm⟩

/-! ## One more section -/

/-- The section states a constraint that is among `seen` or that a section in front of it states. -/
def isRepeated (seen : List (SectionKind × List String)) (front : List Section) (s : Section) :
    Bool :=
  (constraint? s).any fun c => seen.any (· = c) || front.any (constraint? · = some c)

theorem isRepeated_nil (front : List Section) (s : Section) :
    isRepeated [] front s = front.any (·.StatesSame s) := by
  rw [Bool.eq_iff_iff, List.any_eq_true]
  simp only [decide_eq_true_eq, statesSame_iff]
  unfold isRepeated
  cases constraint? s with
  | none => simp
  | some c => simp

/-- What is dropped of the sections in front does not depend on those behind, and a section goes
if it is repeated. -/
theorem dedup_concat (seen : List (SectionKind × List String)) (front : List Section)
    (s : Section) :
    dedup seen (front ++ [s]) =
      dedup seen front ++ if isRepeated seen front s then [] else [s] := by
  unfold isRepeated
  fun_induction dedup seen front with
  | case1 seen =>
      rw [List.nil_append, dedup]
      cases constraint? s with
      | none => rfl
      | some c => by_cases hseen : c ∈ seen <;> simp [hseen, dedup]
  | case2 seen t ss hplain ih =>
      rw [List.cons_append, dedup, hplain]
      simp [ih, hplain]
  | case3 seen t ss c ht hseen ih =>
      rw [List.cons_append, dedup, ht]
      dsimp only
      rw [if_pos hseen, ih]
      cases constraint? s with
      | none => rfl
      | some d =>
          -- a constraint that `t` states too is among those seen
          by_cases hd : c = d
          · simp [← hd, hseen]
          · simp [ht, hd]
  | case4 seen t ss c ht hnew ih =>
      rw [List.cons_append, dedup, ht]
      dsimp only
      rw [if_neg hnew, ih]
      cases constraint? s with
      | none => rfl
      | some d =>
          by_cases hd : c = d
          · simp [ht, hd]
          · simp [ht, hd]

/-- What holds of all lists of sections: it holds of the empty one, and it goes on to hold when a
section is added that is dropped, since one in front of it states the same, or that is left, since
none does. -/
@[elab_as_elim]
theorem dedup_induction {motive : List Section → Prop} (nil : motive [])
    (repeated : ∀ front s u, u ∈ front → u.StatesSame s →
      dedup [] (front ++ [s]) = dedup [] front → motive front → motive (front ++ [s]))
    (new : ∀ front s, (∀ u ∈ front, ¬ u.StatesSame s) →
      dedup [] (front ++ [s]) = dedup [] front ++ [s] → motive front → motive (front ++ [s]))
    (ss : List Section) : motive ss := by
  induction ss using List.reverseRecOn with
  | nil => exact nil
  | append_singleton front s ih =>
      have hconcat := dedup_concat [] front s
      rw [isRepeated_nil] at hconcat
      by_cases hrepeated : ∃ u ∈ front, u.StatesSame s
      · obtain ⟨u, hu, hsame⟩ := hrepeated
        have hany : front.any (·.StatesSame s) := List.any_eq_true.2 ⟨u, hu, decide_eq_true hsame⟩
        rw [if_pos hany, List.append_nil] at hconcat
        exact repeated front s u hu hsame hconcat ih
      · have hnew : ∀ u ∈ front, ¬ u.StatesSame s := by simpa using hrepeated
        have hany : ¬ front.any (·.StatesSame s) := by simpa using hnew
        rw [if_neg hany] at hconcat
        exact new front s hnew hconcat ih

/-! ## What is left -/

/-- The sections that state no constraint of a section in front of them, in order. -/
def unrepeated (ss : List Section) : List Section :=
  (ss.zipIdx.filter fun e => !(ss.take e.2).any (·.StatesSame e.1)).map Prod.fst

theorem unrepeated_concat (front : List Section) (s : Section) :
    unrepeated (front ++ [s]) =
      unrepeated front ++ if front.any (·.StatesSame s) then [] else [s] := by
  have hfront : front.zipIdx.filter (fun e => !((front ++ [s]).take e.2).any (·.StatesSame e.1)) =
      front.zipIdx.filter fun e => !(front.take e.2).any (·.StatesSame e.1) := by
    apply List.filter_congr
    intro e he
    have hlt := List.snd_lt_add_of_mem_zipIdx he
    rw [Nat.zero_add] at hlt
    rw [List.take_append_of_le_length (Nat.le_of_lt hlt)]
  unfold unrepeated
  rw [List.zipIdx_append, List.filter_append, List.map_append, hfront, Nat.zero_add,
    List.zipIdx_singleton, List.filter_singleton, List.take_left]
  cases front.any (·.StatesSame s) <;> rfl

theorem dedup_eq_unrepeated (ss : List Section) : dedup [] ss = unrepeated ss := by
  induction ss using List.reverseRecOn with
  | nil => rfl
  | append_singleton front s ih => rw [dedup_concat, isRepeated_nil, unrepeated_concat, ih]

/-- Of the sections that state the same, the first is left. -/
theorem filter_statesSame_dedup (ss : List Section) (t : Section) :
    (dedup [] ss).filter (·.StatesSame t) = (ss.find? (·.StatesSame t)).toList := by
  induction ss using dedup_induction with
  | nil => rfl
  | repeated front s u hu hsame hdedup ih =>
      rw [hdedup, ih, List.find?_append]
      by_cases hs : s.StatesSame t
      · have hfound : (front.find? (·.StatesSame t)).isSome := by
          rw [List.find?_isSome]
          exact ⟨u, hu, decide_eq_true (hsame.trans hs)⟩
        rw [Option.or_of_isSome hfound]
      · simp [hs]
  | new front s hnew hdedup ih =>
      rw [hdedup, List.filter_append, ih, List.find?_append]
      by_cases hs : s.StatesSame t
      · have hnone : front.find? (·.StatesSame t) = none := by
          rw [List.find?_eq_none]
          intro u hu hsame
          exact hnew u hu ((of_decide_eq_true hsame).trans hs.symm)
        simp [hnone, hs]
      · simp [hs]

/-- Sections that state no constraint are left. -/
theorem filter_not_isConstraint_dedup (ss : List Section) :
    (dedup [] ss).filter (!·.kind.isConstraint) = ss.filter (!·.kind.isConstraint) := by
  induction ss using dedup_induction with
  | nil => rfl
  | repeated front s u _ hsame hdedup ih =>
      have hs : s.kind.isConstraint := hsame.symm.isConstraint
      rw [hdedup, ih, List.filter_append]
      simp [hs]
  | new front s _ hdedup ih => rw [hdedup, List.filter_append, List.filter_append, ih]

/-- No two sections that are left state the same. -/
theorem pairwise_dedup (ss : List Section) :
    (dedup [] ss).Pairwise fun s t => ¬ s.StatesSame t := by
  induction ss using dedup_induction with
  | nil => exact List.Pairwise.nil
  | repeated front s u _ _ hdedup ih =>
      rw [hdedup]
      exact ih
  | new front s hnew hdedup ih =>
      rw [hdedup]
      apply List.pairwise_append.2
      refine ⟨ih, List.pairwise_singleton _ _, ?_⟩
      intro u hu t ht
      rw [List.mem_singleton.1 ht]
      exact hnew u (dedup_subset [] hu)

/-- What was stated is still stated. -/
theorem exists_mem_dedup (hs : s ∈ ss) : ∃ u ∈ dedup [] ss, u.kind = s.kind ∧
    trimmedLines u.body = trimmedLines s.body := by
  by_cases hconstraint : s.kind.isConstraint
  · have hfound : (ss.find? (·.StatesSame s)).isSome := by
      rw [List.find?_isSome]
      exact ⟨s, hs, decide_eq_true (Section.statesSame_self hconstraint)⟩
    obtain ⟨u, hu⟩ := Option.isSome_iff_exists.1 hfound
    have hfirst := filter_statesSame_dedup ss s
    rw [hu] at hfirst
    have hmem : u ∈ (dedup [] ss).filter (·.StatesSame s) := by
      rw [hfirst]
      exact List.mem_singleton_self u
    obtain ⟨hleft, hsame⟩ := List.mem_filter.1 hmem
    exact ⟨u, hleft, (of_decide_eq_true hsame).kind, (of_decide_eq_true hsame).lines⟩
  · have hmem : s ∈ ss.filter (!·.kind.isConstraint) := by
      rw [List.mem_filter]
      exact ⟨hs, by simp [hconstraint]⟩
    rw [← filter_not_isConstraint_dedup] at hmem
    exact ⟨s, (List.mem_filter.1 hmem).1, rfl, rfl⟩

/-- Of the sections that state the same, only the first is left; all others are left. -/
structure LeavesFirst (before after : List Section) : Prop where
  /-- A section is dropped just if a section in front of it states the same. -/
  kept : after = unrepeated before
  /-- Of the sections that state one constraint the first is left. -/
  first : ∀ t : Section, after.filter (·.StatesSame t) = (before.find? (·.StatesSame t)).toList
  /-- No two sections that are left state the same. -/
  distinct : after.Pairwise fun s t => ¬ s.StatesSame t
  /-- All sections that state no constraint are left. -/
  others : after.filter (!·.kind.isConstraint) = before.filter (!·.kind.isConstraint)
  /-- The sections of each kind state the same as before. -/
  stated : ∀ kind lines, (∃ s ∈ after, s.kind = kind ∧ trimmedLines s.body = lines) ↔
    ∃ s ∈ before, s.kind = kind ∧ trimmedLines s.body = lines
  /-- Whatever the lines of a section of some kind mean, the sections of this kind hold together
  just if they did before. -/
  conjunction : ∀ (holds : SectionKind → List String → Prop) (kind : SectionKind),
    (∀ s ∈ after, s.kind = kind → holds kind (trimmedLines s.body)) ↔
      ∀ s ∈ before, s.kind = kind → holds kind (trimmedLines s.body)

/-- The plugin against repeated constraints drops, of all sections that state the same, those behind
the first. Nothing else changes. -/
theorem dedupConstraints_leaves (m : Model) :
    LeavesFirst m.sections (dedupConstraints.apply m).1.sections ∧
      (dedupConstraints.apply m).1.modules = m.modules := by
  have hsections : (dedupConstraints.apply m).1.sections = dedup [] m.sections := rfl
  rw [hsections]
  refine ⟨⟨?_, ?_, ?_, ?_, ?_, ?_⟩, rfl⟩
  · exact dedup_eq_unrepeated m.sections
  · exact filter_statesSame_dedup m.sections
  · exact pairwise_dedup m.sections
  · exact filter_not_isConstraint_dedup m.sections
  · intro kind lines
    constructor
    · rintro ⟨s, hs, hstates⟩
      exact ⟨s, dedup_subset [] hs, hstates⟩
    · rintro ⟨s, hs, rfl, rfl⟩
      exact exists_mem_dedup hs
  · intro holds kind
    constructor
    · rintro h s hs rfl
      obtain ⟨u, hu, hkind, hlines⟩ := exists_mem_dedup hs
      rw [← hlines]
      exact h u hu hkind
    · intro h s hs
      exact h s (dedup_subset [] hs)

end Plugin

end Punctual
