import Punctual.Model.Combine
import Punctual.Proofs.Ending
import Punctual.Proofs.Model.Parsing

/-!
# Merged models

What holds of the parts of all sources holds of the model that is merged from them: its sections
were opened by keywords and its modules are auxiliary ones (`combine_eq_text`). No step of a
merge drops a module, so that a model has one as soon as one of its sources has.
-/

namespace Punctual

open Fragment

variable {m m' : Merge} {r : Except CombineError PUnit}

/-- The sections were opened by their keywords, and the modules are auxiliary ones. -/
structure Model.Sound (m : Model) : Prop where
  sections : ∀ s ∈ m.sections, IsOpened s
  modules : ∀ e ∈ m.modules, IsModuleText e.2

theorem Model.sound_empty : Model.empty.Sound :=
  ⟨by simp [empty], by simp [empty]⟩

theorem Model.Sound.addSection {model : Model} (h : model.Sound) {s : Section}
    (hs : IsOpened s) : (model.addSection s).Sound := by
  refine ⟨?_, h.modules⟩
  exact List.forall_mem_append.2 ⟨h.sections, List.forall_mem_singleton.2 hs⟩

theorem Model.Sound.addModule {model : Model} (h : model.Sound) {e : String × String}
    (he : IsModuleText e.2) : (model.addModule e).Sound := by
  unfold Model.addModule
  split
  · exact h
  · refine ⟨h.sections, ?_⟩
    exact List.forall_mem_append.2 ⟨h.modules, List.forall_mem_singleton.2 he⟩

theorem Model.Sound.addModules {model : Model} (h : model.Sound) {es : List (String × String)}
    (hes : ∀ e ∈ es, IsModuleText e.2) : (es.foldl Model.addModule model).Sound := by
  induction es generalizing model with
  | nil => exact h
  | cons e es ih =>
      exact ih (h.addModule (hes e (by simp))) fun e' he' => hes e' (List.mem_cons_of_mem _ he')

/-- After a module was added there is one, whether it was there before or not. -/
theorem Model.modules_addModule_ne_nil (model : Model) (e : String × String) :
    (model.addModule e).modules ≠ [] := by
  unfold Model.addModule
  split
  · next hfound =>
      intro hnil
      rw [hnil] at hfound
      simp [find?] at hfound
  · simp

theorem Model.modules_addModules_ne_nil {model : Model} {es : List (String × String)}
    (h : model.modules ≠ [] ∨ es ≠ []) : (es.foldl Model.addModule model).modules ≠ [] := by
  induction es generalizing model with
  | nil => exact h.resolve_right (by simp)
  | cons e es ih => exact ih (.inl (model.modules_addModule_ne_nil e))

/-! ## Merges -/

/-- What has been merged so far is sound. -/
def Merge.Sound (m : Merge) : Prop :=
  m.model.Sound

/-- An auxiliary module has been merged. -/
def Merge.HasModule (m : Merge) : Prop :=
  m.model.modules ≠ []

theorem declare_sound (h : m.Sound) (kind : SectionKind) (name type : String) :
    (m.declare kind name type).Sound := by
  unfold Merge.declare
  split
  · exact h
  · exact h.addSection (SectionKind.ofKeyword?_keyword kind)

theorem modules_declare (m : Merge) (kind : SectionKind) (name type : String) :
    (m.declare kind name type).model.modules = m.model.modules := by
  unfold Merge.declare
  split <;> rfl

theorem mergeDeclaration_of_parse {kind : SectionKind} {declaration name type : String}
    (h : parseDeclaration declaration = .ok (name, type)) :
    mergeDeclaration kind declaration = modify fun m => m.declare kind name type := by
  unfold mergeDeclaration
  rw [h]

/-- Merging a declaration declares a variable, or changes nothing. -/
theorem ends_mergeDeclaration {kind : SectionKind} {declaration : String}
    (h : Ends (mergeDeclaration kind declaration) m r m') :
    m' = m ∨ ∃ name type, parseDeclaration declaration = .ok (name, type) ∧
      m' = m.declare kind name type := by
  unfold mergeDeclaration at h
  split at h
  · exact .inl (ends_throw.1 h).2
  · next name type hparse => exact .inr ⟨name, type, hparse, (ends_modify.1 h).2⟩

theorem mergeDeclaration_sound {kind : SectionKind} {declaration : String} (hm : m.Sound)
    (h : Ends (mergeDeclaration kind declaration) m r m') : m'.Sound := by
  rcases ends_mergeDeclaration h with rfl | ⟨name, type, -, rfl⟩
  · exact hm
  · exact declare_sound hm kind name type

theorem mergeDeclaration_modules {kind : SectionKind} {declaration : String}
    (hm : m.HasModule) (h : Ends (mergeDeclaration kind declaration) m r m') :
    m'.HasModule := by
  rcases ends_mergeDeclaration h with rfl | ⟨name, type, -, rfl⟩
  · exact hm
  · unfold Merge.HasModule
    rwa [modules_declare]

theorem mergeSection_sound {s : Section} (hs : IsOpened s) (hm : m.Sound)
    (h : Ends (mergeSection s) m r m') : m'.Sound := by
  unfold mergeSection at h
  split at h
  · exact forM_preserves h hm fun d _ _ _ _ => mergeDeclaration_sound
  · rw [(ends_modify.1 h).2]
    exact hm.addSection hs

theorem mergeSection_modules {s : Section} (hm : m.HasModule)
    (h : Ends (mergeSection s) m r m') : m'.HasModule := by
  unfold mergeSection at h
  split at h
  · exact forM_preserves h hm fun d _ _ _ _ => mergeDeclaration_modules
  · rw [(ends_modify.1 h).2]
    exact hm

theorem mergeFragment_sound {f : Fragment} (hf : f.Sound) (hm : m.Sound)
    (h : Ends (mergeFragment f) m r m') : m'.Sound := by
  rcases ends_bind.1 h with ⟨⟨⟩, m₁, hsections, hmodules⟩ | ⟨e, -, hsections⟩
  · have hm₁ : m₁.Sound :=
      forM_preserves hsections hm fun s hs _ _ _ => mergeSection_sound (hf.sections s hs)
    rw [(ends_modify.1 hmodules).2]
    exact hm₁.addModules hf.modules
  · exact forM_preserves hsections hm fun s hs _ _ _ => mergeSection_sound (hf.sections s hs)

theorem mergeFragment_modules {f : Fragment} (hm : m.HasModule)
    (h : Ends (mergeFragment f) m r m') : m'.HasModule := by
  rcases ends_bind.1 h with ⟨⟨⟩, m₁, hsections, hmodules⟩ | ⟨e, -, hsections⟩
  · have hm₁ : m₁.HasModule :=
      forM_preserves hsections hm fun s _ _ _ _ => mergeSection_modules
    rw [(ends_modify.1 hmodules).2]
    exact Model.modules_addModules_ne_nil (.inl hm₁)
  · exact forM_preserves hsections hm fun s _ _ _ _ => mergeSection_modules

/-- A fragment with a module leaves one behind. -/
theorem mergeFragment_achieves {f : Fragment} (hf : f.modules ≠ [])
    (h : Ends (mergeFragment f) m (.ok ⟨⟩) m') : m'.HasModule := by
  obtain ⟨⟨⟩, m₁, hsections, hmodules⟩ := ends_bind_ok.1 h
  rw [(ends_modify.1 hmodules).2]
  exact Model.modules_addModules_ne_nil (.inr hf)

section Merged

variable {fs : List Fragment} {declarations : List String} {context : Context}

theorem merged_sound (hfs : ∀ f ∈ fs, f.Sound)
    (h : Ends (mergeWithVariables fs declarations) (.start context) (.ok ⟨⟩) m') :
    m'.Sound := by
  obtain ⟨⟨⟩, m₁, hfragments, hvariables⟩ := ends_bind_ok.1 h
  have hm₁ : m₁.Sound :=
    forM_preserves hfragments Model.sound_empty
      fun f hf _ _ _ => mergeFragment_sound (hfs f hf)
  exact forM_preserves hvariables hm₁ fun d _ _ _ _ => mergeDeclaration_sound

theorem merged_modules {f : Fragment} (hf : f ∈ fs) (hne : f.modules ≠ [])
    (h : Ends (mergeWithVariables fs declarations) (.start context) (.ok ⟨⟩) m') :
    m'.HasModule := by
  obtain ⟨⟨⟩, m₁, hfragments, hvariables⟩ := ends_bind_ok.1 h
  have hm₁ : m₁.HasModule :=
    forM_achieves hfragments hf (fun _ _ => mergeFragment_achieves hne)
      fun f _ _ _ _ => mergeFragment_modules
  exact forM_preserves hvariables hm₁ fun d _ _ _ _ => mergeDeclaration_modules

end Merged

/-! ## Plugins -/

theorem dedup_subset {s : Section} (seen : List (SectionKind × List String))
    {sections : List Section} (h : s ∈ Plugin.dedup seen sections) : s ∈ sections := by
  induction sections generalizing seen with
  | nil => exact h
  | cons s' ss ih =>
      unfold Plugin.dedup at h
      split at h
      · rcases List.mem_cons.1 h with rfl | htail
        · exact List.mem_cons_self
        · exact List.mem_cons_of_mem _ (ih seen htail)
      · split at h
        · exact List.mem_cons_of_mem _ (ih seen h)
        · rcases List.mem_cons.1 h with rfl | htail
          · exact List.mem_cons_self
          · exact List.mem_cons_of_mem _ (ih _ htail)

/-- A plugin only drops sections. -/
theorem rewrite_subset {s : Section} (p : Plugin) {sections : List Section}
    (h : s ∈ p.rewrite sections) : s ∈ sections := by
  cases p with
  | dropSpecs keep => exact List.mem_of_mem_filter h
  | dedupConstraints => exact dedup_subset [] h

theorem applyPlugins_spec (ps : List Plugin) (model : Model) :
    (∀ s ∈ (applyPlugins ps model).1.sections, s ∈ model.sections) ∧
      (applyPlugins ps model).1.modules = model.modules := by
  induction ps generalizing model with
  | nil => exact ⟨fun _ => id, rfl⟩
  | cons p ps ih =>
      obtain ⟨hsections, hmodules⟩ := ih (p.apply model).1
      exact ⟨fun s hs => rewrite_subset p (hsections s hs), hmodules⟩

/-! ## Combined texts -/

/-- The model that is made of some texts: their fragments and the extra variables are merged, and the
selected plugins are applied. -/
def IsCombined (sources : List String) (options : CombineOptions) (context : Context)
    (model : Model) : Prop :=
  ∃ plugins m, Plugin.select options.plugins options.pluginOptions = .ok plugins ∧
    Ends (mergeWithVariables (sources.map parse) options.declarations) (.start context)
      (.ok ⟨⟩) m ∧
      model = (applyPlugins plugins m.model).1

theorem ends_ofExcept_ok {ε α : Type} {x : Except ε α} {a : α} {log log' : Log}
    (h : Ends (Logged.ofExcept x) log (.ok a) log') : x = .ok a := by
  cases x with
  | ok b =>
      obtain ⟨rfl, -⟩ := ends_pure_ok.1 h
      rfl
  | error e => exact absurd (ends_throw.1 h).1 (by simp)

theorem ends_warnings (texts : List String) (log : Log) :
    ∃ log', Ends (texts.forM (Logged.warn (ε := CombineError))) log (.ok ⟨⟩) log' :=
  forM_succeeds (fun _ _ _ => ⟨_, ends_modify.2 ⟨rfl, rfl⟩⟩) log

/-- A combination gives the text of the model that is made of the sources, and the context after
merging. -/
theorem ends_combine_ok_iff {sources : List String} {options : CombineOptions} {context : Context}
    {log : Log} {result : String × Context} :
    (∃ log', Ends (combine sources options context) log (.ok result) log') ↔
      ∃ plugins m, Plugin.select options.plugins options.pluginOptions = .ok plugins ∧
        Ends (mergeWithVariables (sources.map parse) options.declarations) (.start context)
          (.ok ⟨⟩) m ∧
        result = ((applyPlugins plugins m.model).1.text, m.context) := by
  unfold combine
  constructor
  · rintro ⟨log', h⟩
    obtain ⟨plugins, l₁, hplugins, h⟩ := ends_bind_ok.1 h
    obtain ⟨⟨⟩, l₂, -, h⟩ := ends_bind_ok.1 h
    cases hmerged : mergeWithVariables (sources.map parse) options.declarations
        (.start context) with
    | error e m =>
        rw [hmerged] at h
        obtain ⟨⟨⟩, l₃, -, h⟩ := ends_bind_ok.1 h
        exact absurd (ends_throw.1 h).1 (by simp)
    | ok u m =>
        rw [hmerged] at h
        obtain ⟨⟨⟩, l₃, -, h⟩ := ends_bind_ok.1 h
        dsimp only at h
        rw [ends_modify_bind] at h
        exact ⟨plugins, m, ends_ofExcept_ok hplugins, hmerged, Except.ok.inj (ends_pure.1 h).1⟩
  · rintro ⟨plugins, m, hplugins, hmerged, rfl⟩
    have hrun : mergeWithVariables (sources.map parse) options.declarations (.start context) =
        .ok ⟨⟩ m := hmerged
    obtain ⟨l₂, houtside⟩ := ends_warnings (sources.flatMap Fragment.warnings) log
    obtain ⟨l₃, hconflicts⟩ := ends_warnings m.warnings l₂
    refine ⟨l₃ ++ (applyPlugins plugins m.model).2, ?_⟩
    rw [hplugins, hrun]
    refine ends_bind_ok.2 ⟨plugins, log, rfl, ends_bind_ok.2 ⟨⟨⟩, l₂, houtside, ?_⟩⟩
    refine ends_bind_ok.2 ⟨⟨⟩, l₃, hconflicts, ?_⟩
    dsimp only
    rw [ends_modify_bind]
    exact ends_pure.2 ⟨rfl, rfl⟩

/-- A combined text is the text of the model that is made of the sources. -/
theorem exists_isCombined {sources : List String} {options : CombineOptions}
    {context context' : Context} {log log' : Log} {text : String}
    (h : Ends (combine sources options context) log (.ok (text, context')) log') :
    ∃ model, IsCombined sources options context model ∧ text = model.text := by
  obtain ⟨plugins, m, hplugins, hmerged, hresult⟩ := ends_combine_ok_iff.1 ⟨log', h⟩
  exact ⟨_, ⟨plugins, m, hplugins, hmerged, rfl⟩, (Prod.mk.inj hresult).1⟩

/-- A combined text is the text of a sound model. It has a module if one of the sources has. -/
theorem combine_eq_text {sources : List String} {options : CombineOptions}
    {context context' : Context} {log log' : Log} {text : String}
    (h : Ends (combine sources options context) log (.ok (text, context')) log') :
    ∃ model : Model, text = model.text ∧ model.Sound ∧
      ((∃ source ∈ sources, (parse source).modules ≠ []) → model.modules ≠ []) := by
  obtain ⟨_, ⟨plugins, m, -, hends, rfl⟩, rfl⟩ := exists_isCombined h
  obtain ⟨hsections, hmodules⟩ := applyPlugins_spec plugins m.model
  have hsound : m.Sound := merged_sound (by simp [parse_sound]) hends
  refine ⟨_, rfl, ⟨?_, ?_⟩, ?_⟩
  · exact fun s hs => hsound.sections s (hsections s hs)
  · rw [hmodules]
    exact hsound.modules
  · rintro ⟨source, hsource, hne⟩
    rw [hmodules]
    exact merged_modules (List.mem_map_of_mem hsource) hne hends

end Punctual
