import Punctual.Proofs.Model.Keywords
import Punctual.Proofs.Specification.Reading
import Punctual.Proofs.Text.Separated
import Punctual.Model.Combine

/-!
# Specifications that are dropped

Dropping specifications is meant to keep those of a schedule, which refer to task counters, and
those with a pattern (`Section.isWanted`). It keeps them all. But a specification also stays if the
letters of a counter stand in one of its comments or inside of another name
(`Section.onlyMentionsCounter`), so that exactly what is wanted is left just if the model has no
such specification without a pattern (`dropSpecs_leaves`).
-/

namespace Punctual

open Text

/-! ## Names -/

/-- A character that a name can begin with. -/
def beginsName (c : Char) : Bool :=
  c.isAlpha || c == '_'

/-- A character that a name can go on with. -/
def continuesName (c : Char) : Bool :=
  c.isAlphanum || c == '_' || c == '$' || c == '#' || c == '-'

/-- The names in some characters. An identifier such as `p.cells[k]` has one name for each of its
parts. -/
def names : List Char → List (List Char)
  | [] => []
  | c :: cs =>
    if beginsName c then (c :: cs.takeWhile continuesName) :: names (cs.dropWhile continuesName)
    else names cs
termination_by cs => cs.length
decreasing_by
  · exact Nat.lt_succ_of_le (List.dropWhile_sublist _).length_le
  · exact Nat.lt_succ_self _

section Names

variable {c : Char} {cs name : List Char}

theorem names_cons_of_begins (h : beginsName c) :
    names (c :: cs) = (c :: cs.takeWhile continuesName) :: names (cs.dropWhile continuesName) := by
  rw [names, if_pos h]

theorem names_cons_of_not_begins (h : beginsName c = false) : names (c :: cs) = names cs := by
  rw [names, if_neg (by simp [h])]

theorem not_begins_of_not_continues (h : continuesName c = false) : beginsName c = false := by
  simp only [continuesName, Bool.or_eq_false_iff] at h
  simp only [beginsName, Bool.or_eq_false_iff]
  exact ⟨(Bool.or_eq_false_iff.1 h.1.1.1.1).1, h.1.1.1.2⟩

/-- Names are found on both sides of a character that no name has. -/
theorem names_append_cons {sep : Char} (hsep : continuesName sep = false) (cs ds : List Char) :
    names (cs ++ sep :: ds) = names cs ++ names ds := by
  fun_induction names cs with
  | case1 => exact names_cons_of_not_begins (not_begins_of_not_continues hsep)
  | case2 c cs hc ih =>
      rw [List.cons_append, names_cons_of_begins hc, takeWhile_append_cons hsep,
        dropWhile_append_cons hsep, ih, List.cons_append]
  | case3 c cs hc ih =>
      rw [List.cons_append, names_cons_of_not_begins (by simpa using hc), ih]

/-- Names stand where they are found. -/
theorem isInfix_of_mem_names (h : name ∈ names cs) : name <:+: cs := by
  fun_induction names cs with
  | case1 => simp at h
  | case2 c cs hc ih =>
      have hsplit : c :: cs = (c :: cs.takeWhile continuesName) ++ cs.dropWhile continuesName := by
        rw [List.cons_append, List.takeWhile_append_dropWhile]
      rcases List.mem_cons.1 h with rfl | hrest
      · exact (hsplit ▸ List.prefix_append _ _).isInfix
      · exact (ih hrest).trans (hsplit ▸ List.suffix_append _ _).isInfix
  | case3 c cs hc ih => exact (ih h).trans (List.suffix_cons c cs).isInfix

/-- Characters of a name that stand in front are those that the first name begins with. -/
theorem exists_mem_names (hc : beginsName c) (hname : ∀ d ∈ name, continuesName d)
    (rest : List Char) : ∃ found ∈ names (c :: name ++ rest), c :: name <+: found := by
  rw [List.cons_append, names_cons_of_begins hc, List.takeWhile_append_of_pos hname]
  exact ⟨_, List.mem_cons_self, List.cons_prefix_cons.2 ⟨rfl, List.prefix_append _ _⟩⟩

end Names

/-! ## Wanted sections -/

/-- The letters that the names of all task counters begin with. -/
def counterStem : String :=
  counterPrefix ++ "_"

namespace Section

/-- A name in the section, outside of comments, is one of a task counter. -/
def refersToCounter (s : Section) : Bool :=
  s.body.any fun line => (names (beforeComment line.toList)).any counterStem.toList.isPrefixOf

/-- A line of the section has one of the patterns. -/
def hasPattern (keep : List String) (s : Section) : Bool :=
  s.body.any fun line => keep.any (Text.contains line)

/-- A section that is to stay: one that is no specification, or refers to a task counter, or has a
pattern. -/
def isWanted (keep : List String) (s : Section) : Bool :=
  s.kind ≠ .spec || s.refersToCounter || s.hasPattern keep

/-- The letters of a task counter stand in the section, but only in comments or inside of other
names. -/
def onlyMentionsCounter (s : Section) : Bool :=
  !s.refersToCounter && s.body.any (Text.contains · counterStem)

variable {keep : List String} {s : Section}

/-- A reference to a counter has the letters of the counter on a line. -/
theorem mentions_of_refersToCounter (h : s.refersToCounter) :
    s.body.any (Text.contains · counterStem) := by
  obtain ⟨line, hline, hrefers⟩ := List.any_eq_true.1 h
  obtain ⟨name, hname, hstem⟩ := List.any_eq_true.1 hrefers
  have hinside : counterStem.toList <:+: line.toList :=
    (List.isPrefixOf_iff_prefix.1 hstem).isInfix.trans
      ((isInfix_of_mem_names hname).trans (beforeComment_isPrefix _).isInfix)
  exact List.any_eq_true.2 ⟨line, hline, Text.hasInfix_iff.2 hinside⟩

/-- Besides the sections that are wanted, those stay that have only the letters of a counter. -/
theorem isKept_iff :
    Plugin.isKept keep s ↔ s.isWanted keep ∨ s.onlyMentionsCounter := by
  have hlines : s.body.any (Plugin.isKeptLine keep) ↔
      s.body.any (Text.contains · counterStem) ∨ s.hasPattern keep := by
    simp only [hasPattern, Plugin.isKeptLine, counterStem, List.any_eq_true, Bool.or_eq_true,
      and_or_left, exists_or]
  rw [Plugin.isKept, Bool.or_eq_true, hlines, isWanted, Bool.or_eq_true, Bool.or_eq_true,
    onlyMentionsCounter]
  by_cases hrefers : s.refersToCounter
  · simp [hrefers, mentions_of_refersToCounter hrefers]
  · simp [hrefers, or_assoc, or_comm]

/-- Whatever unit and task are called, the claim about a target refers to their counter. -/
theorem refersToCounter_claimSection (g : Target) : g.claimSection.refersToCounter := by
  obtain ⟨rest, hclaim⟩ :
      ∃ rest, g.claim.toList = "AG(!((".toList ++ (counterStem.toList ++ rest) := by
    unfold Target.claim Target.reachedByDeadline Target.reachedBy Target.counter counterVariable
    simp only [String.toList_append, List.append_assoc]
    exact ⟨_, rfl⟩
  have hcode : beforeComment g.claim.toList =
      "AG(!(".toList ++ '(' :: ('C' :: "OUNT_".toList ++ beforeComment rest) := by
    rw [hclaim, beforeComment_append (by decide), beforeComment_append (by decide)]
    rfl
  have hletters : "OUNT_".toList.all continuesName := by decide
  obtain ⟨name, hname, hstem⟩ := exists_mem_names (c := 'C') (by decide)
    (List.all_eq_true.1 hletters) (beforeComment rest)
  refine List.any_eq_true.2 ⟨g.claim, List.mem_singleton_self _, List.any_eq_true.2 ⟨name, ?_, ?_⟩⟩
  · rw [hcode, names_append_cons (by decide)]
    exact List.mem_append_right _ hname
  · exact List.isPrefixOf_iff_prefix.2 hstem

end Section

/-- When specifications are dropped, the sections stay in order that are wanted, or that have the
letters of a counter in a comment or inside of another name. Nothing else stays just if each of the
latter is wanted anyway. The claims about targets always refer to a counter, so they stay. -/
theorem dropSpecs_leaves (keep : List String) (m : Model) :
    ((Plugin.dropSpecs keep).apply m).1 =
        { m with sections := m.sections.filter fun s =>
            s.isWanted keep || s.onlyMentionsCounter } ∧
      (((Plugin.dropSpecs keep).apply m).1 =
          { m with sections := m.sections.filter (Section.isWanted keep) } ↔
        ∀ s ∈ m.sections, s.onlyMentionsCounter → s.isWanted keep) ∧
      ∀ g : Target, g.claimSection.refersToCounter := by
  have hleft : ((Plugin.dropSpecs keep).apply m).1 =
      { m with sections := m.sections.filter fun s =>
          s.isWanted keep || s.onlyMentionsCounter } := by
    refine congrArg (Model.mk · m.modules) (List.filter_congr fun s _ => ?_)
    rw [Bool.eq_iff_iff, Section.isKept_iff, Bool.or_eq_true]
  refine ⟨hleft, ?_, Section.refersToCounter_claimSection⟩
  rw [hleft, Model.mk.injEq]
  constructor
  · rintro ⟨hsame, -⟩ s hs hmentions
    have hstays : s ∈ m.sections.filter fun s => s.isWanted keep || s.onlyMentionsCounter :=
      List.mem_filter.2 ⟨hs, by simp [hmentions]⟩
    rw [hsame] at hstays
    exact (List.mem_filter.1 hstays).2
  · intro hwanted
    refine ⟨List.filter_congr fun s hs => ?_, rfl⟩
    rw [Bool.eq_iff_iff, Bool.or_eq_true]
    exact or_iff_left_of_imp (hwanted s hs)

/-- A remark and the end of another name keep specifications that refer to no counter. -/
theorem dropSpecs_leaves_mentions :
    let remark : Section := ⟨.spec, "SPEC", ["AG x -- unlike COUNT_p_x"]⟩
    let ending : Section := ⟨.spec, "LTLSPEC", ["G(DISCOUNT_x < 1)"]⟩
    let wanted : Section := ⟨.spec, "SPEC", ["AG(p.COUNT_x < 1)"]⟩
    let plain : Section := ⟨.spec, "SPEC", ["EF x"]⟩
    ((Plugin.dropSpecs []).apply ⟨[remark, plain, ending, wanted], []⟩).1 =
        ⟨[remark, ending, wanted], []⟩ ∧
      [remark, plain, ending, wanted].filter (Section.isWanted []) = [wanted] := by
  intro remark ending wanted plain
  refine ⟨(dropSpecs_leaves [] _).1.trans ?_, ?_⟩
  · decide +kernel
  · decide +kernel

end Punctual
