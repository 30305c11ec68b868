import Punctual.Proofs.Check.Certificate
import Punctual.Proofs.Check.Preparation
import Punctual.Proofs.Model.Dropping
import Punctual.Proofs.Model.Precedence
import Punctual.Proofs.Model.Rendering
import Punctual.Proofs.Specification.Reading

/-!
# The model of a task

A check that combines models itself puts the deadline specification of its task in front of all
other files. So the counter of the task is declared there, and whatever the other files declare,
specify or repeat, the model declares it once and states the claim about the target
(`Checker.model_states_target`).
-/

namespace Punctual

open Check Fragment

variable {σ : Type}

/-! ## The sources of a combination -/

section Combination

variable {options : CombineOptions} {metadata : Option Metadata} {dir text : String}
  {spec : DeadlineSpec} {state : PlantState} {t : Task} {w w' : World σ}

theorem ends_metadataFiles_bind {α : Type} {f : List String → Check σ α}
    {r : Except (Stop CheckError) α} (h : Ends (metadataFiles metadata t >>= f) w r w') :
    ∃ files reports, Ends (f files) (w.logged reports) r w' := by
  unfold metadataFiles at h
  cases metadata with
  | none =>
      rw [← World.logged_nil w, pure_bind] at h
      exact ⟨[], [], h⟩
  | some m =>
      dsimp only at h
      rw [bind_assoc] at h
      obtain ⟨reports, hlast⟩ := ends_warnings_bind h
      rw [pure_bind] at hlast
      exact ⟨m.filesFor t, reports, hlast⟩

theorem readSources_cons {tree : Tree} {path first : String} {paths sources : List String}
    (hfirst : tree.readText path = .ok first)
    (h : Combiner.readSources tree (path :: paths) = .ok sources) :
    ∃ rest, sources = first :: rest ∧ Combiner.readSources tree paths = .ok rest := by
  unfold Combiner.readSources at h
  rw [hfirst] at h
  cases hrest : Combiner.readSources tree paths with
  | ok rest =>
      rw [hrest] at h
      exact ⟨rest, (Except.ok.inj h).symm, rfl⟩
  | error e =>
      rw [hrest] at h
      simp [Except.map] at h

/-- What the built-in combiner gives is the text of the model that is made of the files. -/
theorem exists_isCombined_of_builtin {tree : Tree} {files : List String} {solver : σ}
    (h : (Combiner.builtin files options tree solver).result = .ok text) :
    ∃ sources model, Combiner.readSources tree files = .ok sources ∧
      IsCombined sources options .empty model ∧ text = model.text := by
  obtain ⟨log, hends⟩ : ∃ log, Ends (Combiner.combineFiles tree files options) [] (.ok text) log := by
    unfold Combiner.builtin Logged.outcome at h
    cases hact : Combiner.combineFiles tree files options [] with
    | ok combined log =>
        rw [hact] at h
        obtain rfl := Except.ok.inj h
        exact ⟨log, hact⟩
    | error e log =>
        rw [hact] at h
        simp at h
  obtain ⟨sources, l₁, hsources, hends⟩ := ends_bind_ok.1 hends
  obtain ⟨⟨model, context⟩, l₂, hcombine, hends⟩ := ends_bind_ok.1 hends
  obtain ⟨⟨⟩, l₃, -, hends⟩ := ends_bind_ok.1 hends
  obtain ⟨rfl, -⟩ := ends_pure_ok.1 hends
  obtain ⟨model, hmodel, htext⟩ := exists_isCombined hcombine
  exact ⟨sources, model, ends_ofExcept_ok hsources, hmodel, htext⟩

theorem ends_combined_ok {act : Tree → σ → Combination σ}
    (h : Ends (combined act) w (.ok text) w') : (act w.tree w.solver).result = .ok text := by
  obtain ⟨hresult, -⟩ := ends_combined h
  cases hact : (act w.tree w.solver).result with
  | ok model =>
      rw [hact] at hresult
      exact congrArg Except.ok (Except.ok.inj hresult).symm
  | error e =>
      rw [hact] at hresult
      simp [Except.mapError] at hresult

/-- The specification that was written comes first, then the initial state. -/
theorem ends_combination_ok
    (h : Ends (combination .builtin options metadata dir spec state t) w (.ok text) w') :
    ∃ foreign model, IsCombined (spec.text :: state.initText :: foreign) options .empty model ∧
      text = model.text := by
  obtain ⟨schedulePath, m₁, hschedule, h⟩ := ends_bind_ok.1 h
  obtain ⟨statePath, m₂, hstate, h⟩ := ends_bind_ok.1 h
  obtain ⟨files, reports, h⟩ := ends_metadataFiles_bind h
  obtain ⟨tree₁, hstore₁, rfl, rfl⟩ := ends_write_ok hschedule
  obtain ⟨tree₂, hstore₂, rfl, rfl⟩ := ends_write_ok hstate
  have hresult : (Combiner.builtin (Artifact.schedule.pathIn dir :: Artifact.state.pathIn dir ::
      files) options tree₂ w.solver).result = .ok text := ends_combined_ok h
  have hread₂ := Artifact.readText_of_store hstore₂
  have hread₁ : tree₂.readText (Artifact.schedule.pathIn dir) = .ok spec.text := by
    -- the second file does not overwrite the first one
    have hsame := Artifact.at?_of_store (by decide : Artifact.schedule ≠ .state) hstore₂
    exact (Tree.readText_eq_of_at?_eq hsame).trans (Artifact.readText_of_store hstore₁)
  obtain ⟨sources, model, hsources, hmodel, htext⟩ := exists_isCombined_of_builtin hresult
  obtain ⟨rest, rfl, hrest⟩ := readSources_cons hread₁ hsources
  obtain ⟨foreign, rfl, -⟩ := readSources_cons hread₂ hrest
  exact ⟨foreign, model, hmodel, htext⟩

end Combination

/-! ## What the specification leaves in the model -/

section Model

variable {g : Target} {spec : DeadlineSpec} {m m' : Merge} {options : CombineOptions}
  {foreign : List String} {model : Model}

theorem isEssential_claimSection (g : Target) : g.claimSection.isEssential := by
  have hmentions := Section.mentions_of_refersToCounter (Section.refersToCounter_claimSection g)
  unfold counterStem at hmentions
  rw [Section.isEssential, hmentions]
  rfl

theorem not_declares_claimSection (g : Target) (name : String) :
    g.claimSection.declares name = false :=
  rfl

/-- The specification of a target is the first that is merged. -/
theorem holds_of_mergeFragment
    (h : Ends (mergeFragment ⟨[g.counterSection, g.claimSection], []⟩) (.start .empty)
      (.ok ⟨⟩) m') :
    m'.Holds g.counter g.range [g.claimSection] := by
  have hcounter : mergeSection g.counterSection =
      [g.declaration].forM (mergeDeclaration .var) := by
    have hkind : g.counterSection.kind.isDeclaration := rfl
    rw [mergeSection, if_pos hkind, g.declarations_counterSection]
    rfl
  have hclaim : mergeSection g.claimSection =
      modify fun m => { m with model := m.model.addSection g.claimSection } := by
    have hkind : ¬ g.claimSection.kind.isDeclaration := by
      simp [Target.claimSection, SectionKind.isDeclaration]
    rw [mergeSection, if_neg hkind]
  have hdeclaration : mergeDeclaration .var g.declaration =
      modify fun m => m.declare .var g.counter g.range :=
    mergeDeclaration_of_parse g.parseDeclaration_declaration
  -- two sections are merged, the first of them with one declaration, and no module
  obtain ⟨⟨⟩, m₁, hsections, hmodules⟩ := ends_bind_ok.1 h
  obtain ⟨⟨⟩, m₂, hfirst, hrest⟩ := ends_bind_ok.1 hsections
  obtain ⟨⟨⟩, m₃, hsecond, hnil⟩ := ends_bind_ok.1 hrest
  obtain ⟨⟨⟩, m₄, hdeclare, hdone⟩ := ends_bind_ok.1 (hcounter ▸ hfirst)
  rw [hdeclaration] at hdeclare
  rw [hclaim] at hsecond
  obtain ⟨-, rfl⟩ := ends_modify.1 hdeclare
  obtain ⟨-, rfl⟩ := ends_pure_ok.1 hdone
  obtain ⟨-, rfl⟩ := ends_modify.1 hsecond
  obtain ⟨-, rfl⟩ := ends_pure_ok.1 hnil
  obtain ⟨-, rfl⟩ := ends_modify.1 hmodules
  have hdeclared :
      (Merge.declare (.start .empty) .var g.counter g.range).Holds g.counter g.range [] :=
    Merge.holds_declare g.isVariableName_counter g.isTypeText_range rfl rfl
  exact hdeclared.addSection (not_declares_claimSection g g.counter)

/-- The model that is made of a specification and any other texts. -/
theorem sections_of_isCombined (hcounters : spec.counters = [⟨g.counter, g.count⟩])
    (htargets : spec.targets = [g])
    (h : IsCombined (spec.text :: foreign) options .empty model) :
    model.sections.filter (Section.declares g.counter) =
        [Merge.declarationSection .var g.counter g.range] ∧
      g.claimSection ∈ model.sections := by
  obtain ⟨plugins, m, -, hmerged, rfl⟩ := h
  rw [List.map_cons, DeadlineSpec.parse_text hcounters htargets] at hmerged
  have hholds := Merge.Holds.merged (fun _ => holds_of_mergeFragment) hmerged
  constructor
  · rw [filter_applyPlugins, hholds.declared]
    intro s hs
    rw [Section.isEssential, (Bool.and_eq_true_iff.1 hs).1, Bool.true_or]
  · have hkept := filter_applyPlugins (p := (· = g.claimSection)) ?_ plugins m.model
    · have hmem : g.claimSection ∈ m.model.sections.filter (· = g.claimSection) :=
        List.mem_filter.2 ⟨hholds.subset List.mem_cons_self, by simp⟩
      rw [← hkept] at hmem
      exact (List.mem_filter.1 hmem).1
    · intro s hs
      obtain rfl := of_decide_eq_true hs
      exact isEssential_claimSection g

theorem mem_lines_of_declaration
    (h : model.sections.filter (Section.declares g.counter) =
      [Merge.declarationSection .var g.counter g.range]) :
    "    " ++ (g.declaration ++ ";") ∈ Text.lines model.text := by
  have hmem : Merge.declarationSection .var g.counter g.range ∈ model.sections := by
    have hone := List.mem_singleton_self (Merge.declarationSection .var g.counter g.range)
    rw [← h] at hone
    exact (List.mem_filter.1 hone).1
  refine Model.mem_lines_of_isGathered hmem rfl ?_ g.isLine_counterLine g.endsSolid_counterLine
  have hne : g.declaration ++ ";" ≠ "" := g.endsSolid_counterText.ne_empty
  change _ ∈ trimmedLines [g.declaration ++ ";"]
  simp [trimmedLines, g.trim_counterText, hne]

theorem text_claimSection (g : Target) : g.claimSection.text = g.specification := by
  have hne : g.claim ≠ "" := g.endsSolid_claim.ne_empty
  have hbody : trimmedLines g.claimSection.body = [g.claim] := by
    simp [trimmedLines, Target.claimSection, g.trim_claim, hne]
  rw [Section.text, hbody, g.specification_eq]
  rfl

theorem mem_lines_of_claim (h : g.claimSection ∈ model.sections) :
    g.specification ∈ Text.lines model.text := by
  have hshown := Model.mem_lines_of_not_isGathered h rfl
  rw [text_claimSection] at hshown
  exact hshown g.isLine_specification g.endsSolid_specification

end Model

namespace Checker

/-- Whatever foreign texts, extra variables and plugins go into it, the model that a check combines
declares the counter of the target once, as a state variable from zero to its count, and still
claims that the target is not reached; both stand on lines of its text. -/
theorem model_states_target {c : Checker σ} {s : Schedule} {state : PlantState} {p : Prepared}
    {w w' : World σ} (hbuiltin : c.combiner = .builtin)
    (h : Ends (c.prepare s state) w (.ok (some p)) w') :
    ∃ earlier foreign, ∃ spec : DeadlineSpec, ∃ model : Model,
      s.Selects state.time c.options.keyUnit earlier p.task ∧
      p.target = Schedule.occurrence earlier p.task ∧
      spec.targets = [p.target] ∧
      IsCombined (spec.text :: state.initText :: foreign) c.options.combine .empty model ∧
      p.model = model.text ∧
      model.sections.filter (Section.declares p.target.counter) =
        [⟨.var, "VAR", [p.target.counter ++ " : 0.." ++ toString p.target.count ++ ";"]⟩] ∧
      ⟨.spec, "SPEC", ["AG(!(" ++ p.target.reachedByDeadline ++ "))"]⟩ ∈ model.sections ∧
      "    " ++ (p.target.counter ++ " : 0.." ++ toString p.target.count ++ ";") ∈
        Text.lines p.model ∧
      "SPEC AG(!(" ++ p.target.reachedByDeadline ++ "))" ∈ Text.lines p.model := by
  obtain ⟨earlier, hselects, hcounts, htarget, m, hprepared⟩ := selects_of_prepare h
  have hfits := s.fitsIn p.task hselects.mem
  obtain ⟨-, -, hnext, hcount, sub, spec, m', hordered, hspec, hcombination⟩ :=
    ends_prepareTask_ok hfits hprepared
  have hdistinct := Counts.distinct_of_ofTasks hcounts
  have hsingle := DeadlineSpec.ofSchedule_single hdistinct hordered hcount
  obtain rfl := Except.ok.inj (hspec.symm.trans hsingle)
  rw [hbuiltin] at hcombination
  obtain ⟨foreign, model, hcombined, htext⟩ := ends_combination_ok hcombination
  have htargets : [p.counts.targetOf p.task] = [p.target] := by rw [hnext]
  have hcounters : [(⟨counterVariable p.task.unit p.task.name,
      p.counts.get p.task.unit p.task.name + 1⟩ : Counter)] =
        [⟨p.target.counter, p.target.count⟩] := by
    rw [hnext]
    rfl
  obtain ⟨hdeclared, hclaimed⟩ := sections_of_isCombined hcounters htargets hcombined
  have hline := mem_lines_of_declaration hdeclared
  have hclaimLine := mem_lines_of_claim hclaimed
  have hshown : p.target.declaration ++ ";" =
      p.target.counter ++ " : 0.." ++ toString p.target.count ++ ";" :=
    p.target.counterText_eq.symm
  rw [hshown, ← htext] at hline
  rw [← htext] at hclaimLine
  refine ⟨earlier, foreign, _, model, hselects, htarget, htargets, hcombined, htext, ?_, hclaimed,
    hline, hclaimLine⟩
  rw [hdeclared, ← hshown]
  rfl

/-- A file that declares the counter of the task in another way. -/
def foreignText : String :=
  "IVAR COUNT_u_n : boolean;"

/-- A check with this file and both plugins. -/
def crowded : Checker Unit where
  backend := agreeable
  combiner := .builtin
  metadata := some ⟨["plant.smv"], []⟩
  options := ⟨none, .default, true, false,
    ⟨["DropSpecs", "DedupConstraints"], [], []⟩, []⟩
  dir := "."

theorem crowded_model_states_target :
    ∃ p w', Ends (crowded.prepare lone ⟨0, .null, []⟩)
        ⟨⟨[(["plant.smv"], .file (Text.encode foreignText))]⟩, [], (), []⟩ (.ok (some p)) w' ∧
      crowded.combiner = .builtin ∧
      ∃ model : Model, p.model = model.text ∧
        model.sections.filter (Section.declares p.target.counter) =
          [⟨.var, "VAR", [p.target.counter ++ " : 0.." ++ toString p.target.count ++ ";"]⟩] := by
  obtain ⟨prepared, w', h, hsome⟩ := exists_ends_ok_of_endsIn
    (crowded.prepare lone ⟨0, .null, []⟩)
    ⟨⟨[(["plant.smv"], .file (Text.encode foreignText))]⟩, [], (), []⟩ Option.isSome
    (by decide +kernel)
  obtain ⟨p, rfl⟩ := Option.isSome_iff_exists.1 hsome
  obtain ⟨-, -, -, model, -, -, -, -, htext, hdeclared, -⟩ := model_states_target rfl h
  exact ⟨p, w', h, rfl, model, htext, hdeclared⟩

end Checker

end Punctual
