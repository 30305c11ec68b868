import Punctual.Proofs.Model.NormalForm
import Punctual.Proofs.Specification.Reading

/-!
# The sections of a specification

A specification is written as one section that declares its counters and one section for the claim
about each target. Cut into parts, its text gives these sections again, up to blanks around the lines
of their bodies (`DeadlineSpec.tidied_text`), and declares exactly the counters, in order
(`DeadlineSpec.declaredIn_text`). Several counters may have one name here.
-/

namespace Punctual

open Text Fragment

/-! ## Counters -/

namespace Target

variable {g : Target} {gs : List Target}

/-- The counter as a variable of a model. -/
def declared (g : Target) : Declared :=
  ⟨.state, g.counter, g.range⟩

theorem isLegible_declared (g : Target) : g.declared.IsLegible where
  name := g.isVariableName_counter
  type := g.isTypeText_range
  noSemicolon := by
    have hall : ';' ∉ g.declaration.toList :=
      g.not_mem_declaration (by decide) (by decide) (by decide)
    intro hmem
    refine hall ?_
    rw [declaration, String.toList_append]
    exact List.mem_append_right _ hmem

/-- The section that declares the counters of some targets. -/
def countersSection (gs : List Target) : Section :=
  ⟨.var, "VAR", gs.map fun g => g.declaration ++ ";"⟩

/-- The lines of that section in a specification, and the empty line behind it. -/
def counterLines (gs : List Target) : List String :=
  "VAR" :: gs.map (fun g => "    " ++ (g.declaration ++ ";")) ++ [""]

theorem trimmedLines_counters (gs : List Target) :
    trimmedLines (gs.map (fun g => "    " ++ (g.declaration ++ ";")) ++ [""]) =
      gs.map fun g => g.declaration ++ ";" := by
  have hempty : trimmedLines [""] = [] := rfl
  rw [trimmedLines_append, hempty, List.append_nil]
  induction gs with
  | nil => rfl
  | cons g gs ih =>
      have hne : g.declaration ++ ";" ≠ "" := g.endsSolid_counterText.ne_empty
      rw [List.map_cons, List.map_cons, trimmedLines_cons, g.trim_counterLine, if_neg hne, ih]
      rfl

theorem opens_counterLines (gs : List Target) : Opens (counterLines gs) (countersSection gs) := by
  have hkeyword : lineKind "VAR" = .opening .var "VAR" "" := by decide
  refine ⟨"VAR", "", _, rfl, hkeyword, ?_, trimmedLines_counters gs⟩
  intro l hl
  rcases List.mem_append.1 hl with hcounter | hempty
  · obtain ⟨g, -, rfl⟩ := List.mem_map.1 hcounter
    exact g.lineKind_counterLine
  · rw [List.mem_singleton.1 hempty]
    exact lineKind_empty

theorem opens_specification (g : Target) : Opens [g.specification] g.claimSection := by
  have hne : g.claim ≠ "" := g.endsSolid_claim.ne_empty
  have hkind : lineKind g.specification = .opening .spec "SPEC" g.claim := by
    rw [g.specification_eq]
    exact lineKind_opening rfl g.trim_claim
  refine ⟨g.specification, g.claim, [], rfl, hkind, by simp, ?_⟩
  rw [if_neg hne, List.append_nil, trimmedLines_singleton, g.trim_claim, if_neg hne]
  rfl

/-- The section of the counters declares them. -/
theorem declared_countersSection (gs : List Target) :
    (countersSection gs).declared = gs.map declared ∧
      ∀ text ∈ (countersSection gs).declarations, ∃ entry, parseDeclaration text = .ok entry := by
  have hcontent : (countersSection gs).content = unlines ((gs.map declared).map Declared.line) := by
    have hstripped : ∀ g ∈ gs, stripComment (g.declaration ++ ";") = g.declaration ++ ";" := by
      intro g _
      have hdeclaration : '-' ∉ g.declaration.toList :=
        g.not_mem_declaration (by decide) (by decide) (by decide)
      exact stripComment_of_not_mem (by simp [hdeclaration])
    have htrimmed : trimmedLines (gs.map fun g => g.declaration ++ ";") =
        gs.map fun g => g.declaration ++ ";" := by
      rw [← trimmedLines_counters gs]
      exact trimmedLines_trimmedLines _
    have hbody : (countersSection gs).body.map stripComment =
        gs.map fun g => g.declaration ++ ";" := by
      rw [countersSection, List.map_map]
      exact List.map_congr_left hstripped
    rw [Section.content, hbody, htrimmed, List.map_map]
    rfl
  have hsame : (countersSection gs).kind = VariableKind.state.sectionKind := rfl
  refine Section.declared_of_content hsame ?_ ?_ hcontent
  · intro d hd
    obtain ⟨g, -, rfl⟩ := List.mem_map.1 hd
    exact g.isLegible_declared
  · intro d hd
    obtain ⟨g, -, rfl⟩ := List.mem_map.1 hd
    rfl

end Target

/-! ## Specifications -/

namespace DeadlineSpec

variable {spec : DeadlineSpec} {gs : List Target}

/-- The blocks of a specification: lines and the section that they open. -/
def blocks (gs targets : List Target) : List (List String × Section) :=
  (if gs.isEmpty then [] else [(Target.counterLines gs, Target.countersSection gs)]) ++
    targets.map fun g => ([g.specification], g.claimSection)

theorem opens_of_mem_blocks {gs targets : List Target} {b : List String × Section}
    (h : b ∈ blocks gs targets) : Opens b.1 b.2 := by
  rcases List.mem_append.1 h with hcounters | hclaim
  · split at hcounters
    · simp at hcounters
    · rw [List.mem_singleton.1 hcounters]
      exact Target.opens_counterLines gs
  · obtain ⟨g, -, rfl⟩ := List.mem_map.1 hclaim
    exact g.opens_specification

theorem text_eq_linesEnded (h : spec.counters = gs.map fun g => ⟨g.counter, g.count⟩) :
    spec.text = linesEnded ((blocks gs spec.targets).flatMap Prod.fst) := by
  have hclaims : linesEnded ((spec.targets.map fun g => ([g.specification], g.claimSection)).flatMap
      Prod.fst) = String.join (spec.targets.map fun g => g.specification ++ "\n") := by
    rw [List.flatMap_map, linesEnded_flatMap]
    simp only [linesEnded_singleton]
  have hcounters : linesEnded ((if gs.isEmpty then []
      else [(Target.counterLines gs, Target.countersSection gs)]).flatMap Prod.fst) =
        declarations spec.counters := by
    cases gs with
    | nil =>
        rw [h]
        rfl
    | cons g gs =>
        have hlines : linesEnded ((g :: gs).map fun g => "    " ++ (g.declaration ++ ";")) =
            String.join (spec.counters.map fun c => "    " ++ c.text ++ "\n") := by
          rw [linesEnded, h, List.map_map, List.map_map]
          refine congrArg String.join (List.map_congr_left fun g _ => ?_)
          rw [Function.comp_apply, Function.comp_apply, g.counterText_eq]
        have hne : spec.counters.isEmpty = false := by
          rw [h]
          rfl
        rw [declarations, hne, if_neg (by simp), ← hlines]
        change linesEnded (Target.counterLines (g :: gs) ++ []) = _
        rw [List.append_nil, Target.counterLines, linesEnded_append, linesEnded_cons,
          linesEnded_singleton]
        rfl
  rw [text, blocks, List.flatMap_append, linesEnded_append, hcounters, hclaims]

theorem lines_text_blocks (h : spec.counters = gs.map fun g => ⟨g.counter, g.count⟩) :
    lines spec.text = (blocks gs spec.targets).flatMap Prod.fst := by
  have hline : ∀ l ∈ (blocks gs spec.targets).flatMap Prod.fst,
      IsLine l ∧ l.toList.getLast? ≠ some '\r' := by
    intro l hl
    obtain ⟨b, hb, hl⟩ := List.mem_flatMap.1 hl
    rcases List.mem_append.1 hb with hcounters | hclaim
    · split at hcounters
      · simp at hcounters
      · rw [List.mem_singleton.1 hcounters] at hl
        rcases List.mem_append.1 hl with hcounter | hempty
        · rcases List.mem_cons.1 hcounter with rfl | hcounter
          · exact ⟨by decide, by decide⟩
          · obtain ⟨g, -, rfl⟩ := List.mem_map.1 hcounter
            exact ⟨g.isLine_counterLine, g.endsSolid_counterLine.getLast?_ne (by decide)⟩
        · rw [List.mem_singleton.1 hempty]
          exact ⟨by decide, by decide⟩
    · obtain ⟨g, -, rfl⟩ := List.mem_map.1 hclaim
      rw [List.mem_singleton.1 hl]
      exact ⟨g.isLine_specification, g.endsSolid_specification.getLast?_ne (by decide)⟩
  rw [text_eq_linesEnded h]
  exact lines_linesEnded (fun l hl => (hline l hl).1) fun l hl => (hline l hl).2

/-- Cut into parts, a specification gives its sections. -/
theorem tidied_text (h : spec.counters = gs.map fun g => ⟨g.counter, g.count⟩) :
    (parse spec.text).sections.map Section.tidy = (blocks gs spec.targets).map Prod.snd ∧
      (parse spec.text).modules = [] := by
  have hstart : Progress.start.current.isInside = false := rfl
  have hopens : ∀ b ∈ blocks gs spec.targets, Opens b.1 b.2 := fun _ hb => opens_of_mem_blocks hb
  obtain ⟨-, htidied⟩ := foldl_take_flatMap (f := Prod.fst) (g := Prod.snd) hopens hstart
  unfold parse ofLines
  rw [lines_text_blocks h]
  exact ⟨congrArg Fragment.sections htidied, congrArg Fragment.modules htidied⟩

/-- A specification declares its counters, and all its declarations can be read. -/
theorem declaredIn_text (h : spec.counters = gs.map fun g => ⟨g.counter, g.count⟩) :
    (parse spec.text).sections.flatMap Section.declared = gs.map Target.declared ∧
      ∀ s ∈ (parse spec.text).sections, s.kind.isDeclaration →
        ∀ text ∈ s.declarations, ∃ entry, parseDeclaration text = .ok entry := by
  have hsections := (tidied_text h).1
  have hclaims : (spec.targets.map Target.claimSection).flatMap Section.declared = [] := by
    rw [List.flatMap_map]
    exact List.flatMap_eq_nil_iff.2 fun _ _ => rfl
  have hblocks : (blocks gs spec.targets).map Prod.snd =
      (if gs.isEmpty then [] else [Target.countersSection gs]) ++
        spec.targets.map Target.claimSection := by
    rw [blocks, List.map_append, List.map_map]
    split <;> rfl
  constructor
  · have htidy : (parse spec.text).sections.flatMap Section.declared =
        ((parse spec.text).sections.map Section.tidy).flatMap Section.declared := by
      rw [List.flatMap_map]
      exact List.flatMap_congr fun s _ => (declared_tidy s).symm
    rw [htidy, hsections, hblocks, List.flatMap_append, hclaims, List.append_nil]
    split
    · next hempty =>
        rw [List.isEmpty_iff.1 hempty]
        rfl
    · rw [List.flatMap_singleton, (Target.declared_countersSection gs).1]
  · intro s hs hkind text htext
    have hmem : s.tidy ∈ (blocks gs spec.targets).map Prod.snd := by
      rw [← hsections]
      exact List.mem_map_of_mem hs
    rw [hblocks] at hmem
    rw [← declarations_tidy] at htext
    rcases List.mem_append.1 hmem with hcounters | hclaim
    · split at hcounters
      · simp at hcounters
      · rw [List.mem_singleton.1 hcounters] at htext
        exact (Target.declared_countersSection gs).2 text htext
    · obtain ⟨g, -, hg⟩ := List.mem_map.1 hclaim
      have hspec : s.kind = .spec := by
        rw [← Section.kind_tidy, ← hg]
        rfl
      rw [hspec] at hkind
      simp [SectionKind.isDeclaration] at hkind

end DeadlineSpec

end Punctual
