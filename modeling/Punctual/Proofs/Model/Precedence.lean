import Punctual.Proofs.Model.Declaration
import Punctual.Proofs.Model.Merging

/-!
# The first declaration of a variable

Once a merge has declared a variable, nothing that is merged afterwards declares it again or changes
its type, and no section gets lost (`Merge.Holds.merged`). Plugins do not touch declarations nor
specifications that name a task counter (`filter_applyPlugins`).
-/

namespace Punctual

open Fragment

variable {m m' : Merge} {r : Except CombineError PUnit} {name type other : String}
  {kept : List Section}

/-! ## Merges -/

theorem typeOf?_add_of_ne (context : Context) (kind : SectionKind) (hne : name ≠ other) :
    (context.add kind other type).typeOf? name = context.typeOf? name := by
  unfold Context.typeOf? Context.add
  split
  all_goals
    dsimp only
    rw [find?_upsert_of_ne hne]

theorem typeOf?_add_self (context : Context) :
    (context.add .var name type).typeOf? name = some type := by
  simp [Context.typeOf?, Context.add]

/-- The variable is declared, once, as a state variable of a type, and the model has some sections. -/
structure Merge.Holds (name type : String) (kept : List Section) (m : Merge) : Prop where
  typeOf : m.context.typeOf? name = some type
  declared : m.model.sections.filter (Section.declares name) =
    [Merge.declarationSection .var name type]
  subset : kept ⊆ m.model.sections

/-- A variable is declared once if it was not declared before. -/
theorem Merge.holds_declare (hname : IsVariableName name) (htype : IsTypeText type)
    (hnew : m.context.typeOf? name = none)
    (hnone : m.model.sections.filter (Section.declares name) = []) :
    (m.declare .var name type).Holds name type [] := by
  have hdeclares : (Merge.declarationSection .var name type).declares name :=
    Section.declares_declarationSection rfl hname htype
  have heq : m.declare .var name type =
      { m with
        context := m.context.add .var name type
        model := m.model.addSection (Merge.declarationSection .var name type) } := by
    unfold Merge.declare
    rw [hnew]
  refine ⟨?_, ?_, by simp⟩
  · rw [heq]
    exact typeOf?_add_self m.context
  · rw [heq]
    dsimp only [Model.addSection]
    rw [List.filter_append, hnone, List.nil_append]
    simp [hdeclares]

theorem Merge.Holds.declare (h : m.Holds name type kept) (kind : SectionKind)
    (hother : IsVariableName other) (type' : String) :
    (m.declare kind other type').Holds name type kept := by
  unfold Merge.declare
  split
  · exact ⟨h.typeOf, h.declared, h.subset⟩
  · next hnew =>
      -- the context knows the variable, so a declaration that is new is one of another variable
      have hne : name ≠ other := by
        rintro rfl
        rw [h.typeOf] at hnew
        simp at hnew
      constructor
      · rw [typeOf?_add_of_ne _ _ hne]
        exact h.typeOf
      · have hforeign :=
          Section.not_declares_declarationSection kind type' hother (Ne.symm hne)
        rw [Model.addSection, List.filter_append, h.declared]
        simp [hforeign]
      · exact fun s hs => List.mem_append_left _ (h.subset hs)

theorem Merge.Holds.mergeDeclaration {kind : SectionKind} {declaration : String}
    (hm : m.Holds name type kept) (h : Ends (mergeDeclaration kind declaration) m r m') :
    m'.Holds name type kept := by
  rcases ends_mergeDeclaration h with rfl | ⟨other, type', hparse, rfl⟩
  · exact hm
  · exact hm.declare kind (isVariableName_of_parseDeclaration hparse).1 type'

theorem Merge.Holds.addSection {s : Section} (hm : m.Holds name type kept)
    (hs : s.declares name = false) :
    Merge.Holds name type (s :: kept) { m with model := m.model.addSection s } := by
  refine ⟨hm.typeOf, ?_, ?_⟩
  · dsimp only [Model.addSection]
    rw [List.filter_append, hm.declared]
    simp [hs]
  · intro s' hs'
    rcases List.mem_cons.1 hs' with rfl | htail
    · exact List.mem_append_right _ List.mem_cons_self
    · exact List.mem_append_left _ (hm.subset htail)

theorem Merge.Holds.mergeSection {s : Section} (hm : m.Holds name type kept)
    (h : Ends (mergeSection s) m r m') : m'.Holds name type kept := by
  unfold Punctual.mergeSection at h
  split at h
  · exact forM_preserves h hm fun d _ _ _ _ hd => hd.mergeDeclaration
  · next hkind =>
      have hmore := hm.addSection (s := s) (by simp [Section.declares, hkind])
      rw [(ends_modify.1 h).2]
      exact ⟨hmore.typeOf, hmore.declared, fun s' hs' => hmore.subset (List.mem_cons_of_mem _ hs')⟩

theorem sections_addModules (model : Model) (es : List (String × String)) :
    (es.foldl Model.addModule model).sections = model.sections := by
  induction es generalizing model with
  | nil => rfl
  | cons e es ih =>
      rw [List.foldl_cons, ih]
      unfold Model.addModule
      split <;> rfl

theorem Merge.Holds.mergeFragment {f : Fragment} (hm : m.Holds name type kept)
    (h : Ends (mergeFragment f) m r m') : m'.Holds name type kept := by
  rcases ends_bind.1 h with ⟨⟨⟩, m₁, hsections, hmodules⟩ | ⟨e, -, hsections⟩
  · have hm₁ : m₁.Holds name type kept :=
      forM_preserves hsections hm fun s _ _ _ _ hs => hs.mergeSection
    rw [(ends_modify.1 hmodules).2]
    refine ⟨hm₁.typeOf, ?_, ?_⟩
    · rw [sections_addModules]
      exact hm₁.declared
    · rw [sections_addModules]
      exact hm₁.subset
  · exact forM_preserves hsections hm fun s _ _ _ _ hs => hs.mergeSection

/-- What holds after the first fragment holds after all of them and after the extra variables. -/
theorem Merge.Holds.merged {f : Fragment} {fs : List Fragment} {declarations : List String}
    (hfirst : ∀ m₁, Ends (Punctual.mergeFragment f) m (.ok ⟨⟩) m₁ → m₁.Holds name type kept)
    (h : Ends (mergeWithVariables (f :: fs) declarations) m (.ok ⟨⟩) m') :
    m'.Holds name type kept := by
  obtain ⟨⟨⟩, m₂, hfragments, hvariables⟩ := ends_bind_ok.1 h
  obtain ⟨⟨⟩, m₁, hhead, htail⟩ := ends_bind_ok.1 hfragments
  have hm₂ : m₂.Holds name type kept :=
    forM_preserves htail (hfirst m₁ hhead) fun f _ _ _ _ hf => hf.mergeFragment
  exact forM_preserves hvariables hm₂ fun d _ _ _ _ hd => hd.mergeDeclaration

/-! ## Plugins -/

/-- A declaration, or a specification that names a task counter. -/
def Section.isEssential (s : Section) : Bool :=
  s.kind.isDeclaration ||
    (s.kind = .spec && s.body.any fun line => Text.contains line (counterPrefix ++ "_"))

theorem isKept_of_isEssential {keep : List String} {s : Section} (h : s.isEssential) :
    Plugin.isKept keep s := by
  unfold Plugin.isKept
  rcases Bool.or_eq_true_iff.1 h with hdeclaration | hspec
  · have hkind : s.kind ≠ .spec := by
      intro heq
      rw [heq] at hdeclaration
      simp [SectionKind.isDeclaration] at hdeclaration
    simp [hkind]
  · obtain ⟨-, hbody⟩ := Bool.and_eq_true_iff.1 hspec
    obtain ⟨line, hline, hnamed⟩ := List.any_eq_true.1 hbody
    have hkept : Plugin.isKeptLine keep line := by simp [Plugin.isKeptLine, hnamed]
    simp only [Bool.or_eq_true, List.any_eq_true]
    exact .inr ⟨line, hline, hkept⟩

theorem constraint?_of_isEssential {s : Section} (h : s.isEssential) :
    Plugin.constraint? s = none := by
  unfold Plugin.constraint?
  refine if_neg ?_
  cases hkind : s.kind <;> simp [Section.isEssential, hkind, SectionKind.isDeclaration,
    SectionKind.isConstraint] at h ⊢

variable {p : Section → Bool} (hp : ∀ s, p s → s.isEssential)

include hp in
theorem filter_dedup (seen : List (SectionKind × List String)) (sections : List Section) :
    (Plugin.dedup seen sections).filter p = sections.filter p := by
  induction sections generalizing seen with
  | nil => rfl
  | cons s ss ih =>
      unfold Plugin.dedup
      split
      · rw [List.filter_cons, List.filter_cons, ih]
      · next c hconstraint =>
          have hplain : p s = false := by
            by_contra hps
            have hnone := constraint?_of_isEssential (hp s (by simpa using hps))
            rw [hconstraint] at hnone
            simp at hnone
          have hskip : (s :: ss).filter p = ss.filter p :=
            List.filter_cons_of_neg (by simp [hplain])
          split
          · rw [ih, hskip]
          · rw [List.filter_cons_of_neg (by simp [hplain]), ih, hskip]

include hp in
theorem filter_rewrite (plugin : Plugin) (sections : List Section) :
    (plugin.rewrite sections).filter p = sections.filter p := by
  cases plugin with
  | dropSpecs keep =>
      have hboth : ∀ s ∈ sections, (p s && Plugin.isKept keep s) = p s := by
        intro s _
        by_cases hps : p s
        · rw [isKept_of_isEssential (hp s hps), Bool.and_true]
        · simp [hps]
      unfold Plugin.rewrite
      dsimp only
      rw [List.filter_filter]
      exact List.filter_congr hboth
  | dedupConstraints => exact filter_dedup hp [] sections

include hp in
/-- Whatever plugins run, the essential sections stay, in order and as often as they are there. -/
theorem filter_applyPlugins (plugins : List Plugin) (model : Model) :
    (applyPlugins plugins model).1.sections.filter p = model.sections.filter p := by
  induction plugins generalizing model with
  | nil => rfl
  | cons plugin plugins ih => exact (ih _).trans (filter_rewrite hp plugin model.sections)

end Punctual
