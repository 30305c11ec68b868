import Mathlib.Data.List.Nodup
import Punctual.Proofs.Model.Clean

/-!
# Combined models are normal forms

A combination writes its sections by kind, each variable once and each module once. Parsed again,
the text gives these sections in this order and declares the same variables, so that combining it by
itself changes nothing (`combine_combined`).
-/

namespace Punctual

open Text Fragment

/-! ## Sections of one kind -/

theorem flatMap_ite_all {α : Type} (kind : SectionKind) (as : List α) :
    (SectionKind.all.flatMap fun k => if k = kind then as else []) = as := by
  cases kind <;> simp [SectionKind.all]

namespace Model

variable {kind : SectionKind} {sections : List Section} {s : Section}

theorem kind_of_mem_shownOfKind (h : s ∈ shownOfKind kind sections) : s.kind = kind := by
  unfold shownOfKind at h
  split at h
  · simp at h
  · split at h
    · rw [List.mem_singleton.1 h]
    · simpa using (List.mem_filter.1 h).2

/-- Among the shown sections, those of a kind are the ones that are shown for it. -/
theorem ofKind_shown (kind : SectionKind) (sections : List Section) :
    ofKind kind (shown sections) = shownOfKind kind sections := by
  have hone : ∀ k ∈ SectionKind.all, ofKind kind (shownOfKind k sections) =
      if k = kind then shownOfKind kind sections else [] := by
    intro k _
    by_cases hk : k = kind
    · subst hk
      rw [if_pos rfl]
      exact List.filter_eq_self.2 fun s hs => by simpa using kind_of_mem_shownOfKind hs
    · rw [if_neg hk]
      refine List.filter_eq_nil_iff.2 fun s hs => ?_
      rw [kind_of_mem_shownOfKind hs]
      simpa using hk
  have hflat : ofKind kind (shown sections) =
      SectionKind.all.flatMap fun k => ofKind kind (shownOfKind k sections) :=
    List.filter_flatMap
  rw [hflat, List.flatMap_congr hone, flatMap_ite_all]

/-- A shown section is opened by its keyword, and its lines are lines of sections of its kind. -/
theorem opened_of_mem_shownOfKind (h : s ∈ shownOfKind kind sections)
    (hopened : ∀ s' ∈ ofKind kind sections, IsOpened s') :
    IsOpened s ∧ ∀ l ∈ s.body, ∃ s' ∈ ofKind kind sections, l ∈ s'.body := by
  unfold shownOfKind at h
  split at h
  · simp at h
  · split at h
    · obtain rfl := List.mem_singleton.1 h
      exact ⟨SectionKind.ofKeyword?_keyword kind, fun l hl => List.mem_flatMap.1 hl⟩
    · exact ⟨hopened s h, fun l hl => ⟨s, h, hl⟩⟩

theorem map_ofKind {f : Section → Section} (hf : ∀ s, (f s).kind = s.kind) (kind : SectionKind)
    (sections : List Section) : (ofKind kind sections).map f = ofKind kind (sections.map f) := by
  unfold ofKind
  rw [List.filter_map]
  refine congrArg _ (List.filter_congr fun s _ => ?_)
  rw [Function.comp_apply, hf]

/-- What is shown for a kind depends on the sections of that kind, up to blanks around the lines of
their bodies. -/
theorem map_tidy_shownOfKind {sections' : List Section}
    (h : (ofKind kind sections).map Section.tidy = (ofKind kind sections').map Section.tidy) :
    (shownOfKind kind sections).map Section.tidy =
      (shownOfKind kind sections').map Section.tidy := by
  have hbody (ss : List Section) : trimmedLines (ss.flatMap (·.body)) =
      (ss.map Section.tidy).flatMap (·.body) := by
    rw [trimmedLines_flatMap, List.flatMap_map]
    rfl
  unfold shownOfKind
  cases hgroup : ofKind kind sections with
  | nil =>
      rw [hgroup, List.map_nil, eq_comm, List.map_eq_nil_iff] at h
      rw [h]
  | cons s ss =>
      cases hgroup' : ofKind kind sections' with
      | nil => simp [hgroup, hgroup'] at h
      | cons s' ss' =>
          rw [hgroup, hgroup'] at h
          dsimp only
          by_cases hkind : kind.isGathered
          · simp only [if_pos hkind, List.map_singleton, Section.tidy, hbody, h]
          · simp only [if_neg hkind, h]

theorem shownOfKind_shown (kind : SectionKind) (sections : List Section) :
    shownOfKind kind (shown sections) = shownOfKind kind sections := by
  rw [shownOfKind, ofKind_shown]
  unfold shownOfKind
  cases ofKind kind sections with
  | nil => rfl
  | cons s ss =>
      by_cases hkind : kind.isGathered
      · simp [hkind]
      · simp [hkind]

theorem ofKind_filter_isOther (hkind : kind.isDeclaration = false) (sections : List Section) :
    ofKind kind (sections.filter Section.isOther) = ofKind kind sections := by
  unfold ofKind
  rw [List.filter_filter]
  refine List.filter_congr fun s _ => ?_
  by_cases hs : s.kind = kind
  · simp [hs, Section.isOther, hkind]
  · simp [hs]

theorem shownLines_tidy (s : Section) : s.tidy.shownLines = s.shownLines := by
  unfold Section.shownLines
  rw [Section.text_tidy]
  simp only [Section.tidy, trimmedLines_trimmedLines]

/-- Models that show the same for every kind have the same text. -/
theorem text_congr {m m' : Model} (hsections : ∀ kind,
    (shownOfKind kind m.sections).map Section.tidy = (shownOfKind kind m'.sections).map Section.tidy)
    (hmodules : m.modules = m'.modules) : m.text = m'.text := by
  have hshown (sections : List Section) : (shown sections).flatMap Section.shownLines =
      SectionKind.all.flatMap fun kind =>
        ((shownOfKind kind sections).map Section.tidy).flatMap Section.shownLines := by
    simp only [shown, List.flatMap_assoc, List.flatMap_map, shownLines_tidy]
  rw [text_eq_linesEnded, text_eq_linesEnded, textLines, textLines, hshown, hshown, hmodules]
  simp only [hsections]

end Model

/-! ## Merged models -/

section Merged

variable {m : Merge} {context : Context} {ds : List Declared} {others : List Section}
  {modules : List (String × String)}

/-- What a merge declares in the end. -/
def Context.freshOf (context : Context) (ds : List Declared) (kind : VariableKind) :
    List Declared :=
  (context.fresh ds).filter (·.kind = kind)

theorem Merge.Gathers.ofKind_declaration (hm : m.Gathers context ds others modules)
    (kind : VariableKind) : Model.ofKind kind.sectionKind m.model.sections =
      (context.freshOf ds kind).map Declared.shown := by
  have hdeclares : Model.ofKind kind.sectionKind m.model.sections =
      Model.ofKind kind.sectionKind (m.model.sections.filter (·.kind.isDeclaration)) := by
    unfold Model.ofKind
    rw [List.filter_filter]
    refine List.filter_congr fun s _ => ?_
    by_cases hs : s.kind = kind.sectionKind
    · simp [hs, kind.isDeclaration_sectionKind]
    · simp [hs]
  rw [hdeclares, hm.declarations, Model.ofKind, List.filter_map, Context.freshOf]
  refine congrArg _ (List.filter_congr fun d _ => ?_)
  obtain ⟨k, name, type⟩ := d
  cases k <;> cases kind <;> rfl

theorem Merge.Gathers.ofKind_other (hm : m.Gathers context ds others modules) {kind : SectionKind}
    (hkind : kind.isDeclaration = false) :
    Model.ofKind kind m.model.sections = Model.ofKind kind others := by
  rw [← hm.others, Model.ofKind_filter_isOther hkind]

/-- The section that shows the new variables of a kind. -/
theorem Merge.Gathers.body_of_mem_shown (hm : m.Gathers context ds others modules) {s : Section}
    {kind : VariableKind} (hs : s ∈ Model.shown m.model.sections)
    (hkind : s.kind = kind.sectionKind) :
    s.keyword = kind.sectionKind.keyword ∧
      s.body = (context.freshOf ds kind).map Declared.line := by
  have hgathered : kind.sectionKind.isGathered := by cases kind <;> rfl
  have hof : s ∈ Model.shownOfKind kind.sectionKind m.model.sections := by
    rw [← Model.ofKind_shown]
    exact List.mem_filter.2 ⟨hs, by simp [hkind]⟩
  unfold Model.shownOfKind at hof
  split at hof
  · simp at hof
  · rw [if_pos hgathered, List.mem_singleton, hm.ofKind_declaration] at hof
    subst hof
    refine ⟨rfl, ?_⟩
    dsimp only
    rw [List.flatMap_map]
    exact List.map_eq_flatMap.symm

theorem isDeclaration_iff {kind : SectionKind} :
    kind.isDeclaration ↔ ∃ k : VariableKind, kind = k.sectionKind := by
  constructor
  · intro h
    obtain ⟨k, -, hk⟩ := SectionKind.exists_variableKind h
    exact ⟨k, hk⟩
  · rintro ⟨k, rfl⟩
    exact k.isDeclaration_sectionKind

/-- A section of new variables can be parsed. -/
theorem isReadable_of_declared {s : Section} (hopened : IsOpened s) (hkind : s.kind.isDeclaration)
    {new : List Declared} (hnew : ∀ d ∈ new, d.IsShowable) (hbody : s.body = new.map Declared.line) :
    s.IsReadable := by
  have hlines : ∀ l ∈ trimmedLines s.body, IsClean l.toList ∧ IsSolid l.toList := by
    have hall : ∀ l ∈ new.map Declared.line, IsClean l.toList ∧ IsSolid l.toList := by
      intro l hl
      obtain ⟨d, hd, rfl⟩ := List.mem_map.1 hl
      exact (hnew d hd).line_spec
    rwa [hbody, trimmedLines_of_isSolid fun l hl => (hall l hl).2]
  refine ⟨hopened, ?_, ?_, fun hsingle => ?_⟩
  · exact fun l hl row hrow => (isClean_of_mem_rows (hlines l hl).1 hrow).lineKind_eq
  · exact fun l hl row hrow => isSolid_of_mem_rows (hlines l hl).1.firm (hlines l hl).2 hrow
  · rw [hkind] at hsingle
    simp at hsingle

/-- A section of source lines without keywords can be parsed. -/
theorem isReadable_of_lines {s : Section} (hopened : IsOpened s)
    (h : ∀ l ∈ s.body, '\n' ∉ l.toList ∧ isKeywordFree (beforeComment l.toList)) :
    s.IsReadable := by
  have hlines : ∀ l ∈ trimmedLines s.body, '\n' ∉ l.toList ∧ lineKind l = .plain := by
    intro l hl
    obtain ⟨hmem, -⟩ := List.mem_filter.1 hl
    obtain ⟨raw, hraw, rfl⟩ := List.mem_map.1 hmem
    obtain ⟨hfeed, hfree⟩ := h raw hraw
    refine ⟨fun hmem => hfeed ?_, lineKind_of_isKeywordFree (isKeywordFree_beforeComment_trim hfree)⟩
    rw [toList_trim] at hmem
    exact (List.dropWhile_sublist _).subset ((List.rdropWhile_prefix _ _).subset hmem)
  have hrows : ∀ l ∈ trimmedLines s.body, ∀ row ∈ rows l, row = l := by
    intro l hl row hrow
    rw [rows_of_not_mem (hlines l hl).1] at hrow
    exact List.mem_singleton.1 hrow
  refine ⟨hopened, fun l hl row hrow => ?_, fun l hl row hrow => ?_, fun _ l hl => (hlines l hl).1⟩
  · rw [hrows l hl row hrow]
    exact (hlines l hl).2
  · rw [hrows l hl row hrow]
    exact isSolid_of_mem_trimmedLines hl

end Merged

/-! ## Models that are merged from sources -/

/-- A source without carriage returns in which keywords stand at the beginning of lines only. -/
def IsRegular (source : String) : Prop :=
  '\r' ∉ source.toList ∧ (lines source).all keywordsLead

section Sources

variable {sources : List String} {m : Merge}

theorem isShowable_of_mem_fresh (hsources : ∀ source ∈ sources, IsRegular source)
    {context : Context} {d : Declared}
    (hd : d ∈ context.fresh (declaredIn (sources.map parse))) : d.IsShowable := by
  obtain ⟨hmem, -⟩ := List.mem_filter.1 (mem_of_mem_firstOfEach hd)
  obtain ⟨f, hf, hmem⟩ := List.mem_flatMap.1 hmem
  obtain ⟨source, hsource, rfl⟩ := List.mem_map.1 hf
  obtain ⟨s, hs, hd⟩ := List.mem_flatMap.1 hmem
  exact isShowable_of_mem_declared (hsources source hsource).2 hs hd

/-- What is merged from regular sources can be parsed again. -/
theorem isReadable_of_mergeFragments (hsources : ∀ source ∈ sources, IsRegular source)
    {context : Context}
    (h : Ends (mergeFragments (sources.map parse)) (.start context) (.ok ⟨⟩) m) :
    m.model.IsReadable := by
  have hm := gathers_of_mergeFragments h
  have hopened : ∀ f ∈ sources.map parse, ∀ s ∈ f.sections, IsOpened s := by
    intro f hf s hs
    obtain ⟨source, -, rfl⟩ := List.mem_map.1 hf
    exact (parse_sound source).sections s hs
  have hothers : ∀ s ∈ (sources.map parse).flatMap Fragment.sections, IsOpened s ∧
      ∀ l ∈ s.body, '\n' ∉ l.toList ∧ isKeywordFree (beforeComment l.toList) := by
    intro s hs
    obtain ⟨f, hf, hs⟩ := List.mem_flatMap.1 hs
    refine ⟨hopened f hf s hs, fun l hl => ?_⟩
    obtain ⟨source, hsource, rfl⟩ := List.mem_map.1 hf
    exact ⟨not_mem_of_mem_body hs hl, isKeywordFree_of_mem_body (hsources source hsource).2 hs hl⟩
  have hentries : ∀ e ∈ m.model.modules, IsModuleEntry e ∧ '\r' ∉ e.2.toList := by
    intro e he
    rw [hm.modules] at he
    obtain ⟨f, hf, he⟩ := List.mem_flatMap.1 (mem_of_mem_firstOfEach he)
    obtain ⟨source, hsource, rfl⟩ := List.mem_map.1 hf
    exact ⟨isModuleEntry_of_mem_modules he, not_mem_of_mem_modules (hsources source hsource).1 he⟩
  refine ⟨fun s hs => ?_, fun e he => (hentries e he).1, fun e he => (hentries e he).2⟩
  by_cases hkind : s.kind.isDeclaration
  · obtain ⟨kind, hsame⟩ := isDeclaration_iff.1 hkind
    obtain ⟨hkeyword, hbody⟩ := hm.body_of_mem_shown hs hsame
    have hopens : IsOpened s := by
      rw [IsOpened, hkeyword, hsame]
      exact SectionKind.ofKeyword?_keyword _
    refine isReadable_of_declared hopens hkind (fun d hd => ?_) hbody
    exact isShowable_of_mem_fresh hsources (List.mem_of_mem_filter hd)
  · -- a section of another kind consists of lines of the sources
    have hof : s ∈ Model.shownOfKind s.kind m.model.sections := by
      rw [← Model.ofKind_shown]
      exact List.mem_filter.2 ⟨hs, by simp⟩
    have hgroup : ∀ s' ∈ Model.ofKind s.kind m.model.sections, IsOpened s' ∧
        ∀ l ∈ s'.body, '\n' ∉ l.toList ∧ isKeywordFree (beforeComment l.toList) := by
      intro s' hs'
      rw [hm.ofKind_other (by simpa using hkind)] at hs'
      exact hothers s' (List.mem_of_mem_filter (List.mem_of_mem_filter hs'))
    obtain ⟨hopens, hlines⟩ :=
      Model.opened_of_mem_shownOfKind hof fun s' hs' => (hgroup s' hs').1
    refine isReadable_of_lines hopens fun l hl => ?_
    obtain ⟨s', hs', hl⟩ := hlines l hl
    exact (hgroup s' hs').2 l hl

end Sources

/-! ## Merging a merged model again -/

/-- Fragments whose declarations can be read are merged. -/
theorem exists_ends_mergeFragments {fs : List Fragment}
    (h : ∀ f ∈ fs, ∀ s ∈ f.sections, s.kind.isDeclaration →
      ∀ text ∈ s.declarations, ∃ entry, parseDeclaration text = .ok entry) (m : Merge) :
    ∃ m', Ends (mergeFragments fs) m (.ok ⟨⟩) m' := by
  refine forM_succeeds (fun f hf m => ?_) m
  have hall : ∀ s ∈ f.sections, ∀ m, ∃ m', Ends (mergeSection s) m (.ok ⟨⟩) m' := by
    intro s hs m
    unfold mergeSection
    by_cases hkind : s.kind.isDeclaration
    · rw [if_pos hkind]
      refine forM_succeeds (fun text htext m => ?_) m
      obtain ⟨entry, hentry⟩ := h f hf s hs hkind text htext
      exact ⟨_, by rw [mergeDeclaration_of_parse hentry]; exact ends_modify.2 ⟨rfl, rfl⟩⟩
    · rw [if_neg hkind]
      exact ⟨_, ends_modify.2 ⟨rfl, rfl⟩⟩
  obtain ⟨m₁, hsections⟩ := forM_succeeds hall m
  exact ⟨_, ends_bind_ok.2 ⟨⟨⟩, m₁, hsections, ends_modify.2 ⟨rfl, rfl⟩⟩⟩

theorem declarations_tidy (s : Section) : s.tidy.declarations = s.declarations := by
  unfold Section.declarations
  rw [Section.content_tidy]

theorem declared_tidy (s : Section) : s.tidy.declared = s.declared := by
  unfold Section.declared
  rw [declarations_tidy]
  rfl

/-- The declarations of a list, those for each kind of section together. -/
def groupedByKind (ds : List Declared) : List Declared :=
  SectionKind.all.flatMap fun kind => ds.filter (·.kind.sectionKind = kind)

/-- Each kind of variables has a kind of sections of its own. -/
theorem filter_sectionKind (ds : List Declared) (kind : VariableKind) :
    ds.filter (·.kind.sectionKind = kind.sectionKind) = ds.filter (·.kind = kind) := by
  refine List.filter_congr fun d _ => ?_
  obtain ⟨k, name, type⟩ := d
  cases k <;> cases kind <;> rfl

theorem filter_groupedByKind (ds : List Declared) (kind : VariableKind) :
    (groupedByKind ds).filter (·.kind = kind) = ds.filter (·.kind = kind) := by
  have hone : ∀ k ∈ SectionKind.all, (ds.filter (·.kind.sectionKind = k)).filter (·.kind = kind) =
      if k = kind.sectionKind then ds.filter (·.kind = kind) else [] := by
    intro k _
    rw [List.filter_filter]
    split
    · next hk =>
        subst hk
        refine List.filter_congr fun d _ => ?_
        by_cases hd : d.kind = kind <;> simp [hd]
    · next hk =>
        refine List.filter_eq_nil_iff.2 fun d _ => ?_
        simp only [Bool.and_eq_true, decide_eq_true_eq, not_and]
        rintro rfl
        exact Ne.symm hk
  rw [groupedByKind, List.filter_flatMap, List.flatMap_congr hone, flatMap_ite_all]

theorem nodup_groupedByKind {ds : List Declared} (h : (ds.map Declared.name).Nodup) :
    ((groupedByKind ds).map Declared.name).Nodup := by
  rw [groupedByKind, List.map_flatMap, List.nodup_flatMap]
  refine ⟨fun k _ => h.sublist (List.filter_sublist.map _), ?_⟩
  have hkinds : SectionKind.all.Nodup := by decide
  refine hkinds.imp fun hne name hname hname' => ?_
  obtain ⟨d, hd, rfl⟩ := List.mem_map.1 hname
  obtain ⟨d', hd', heq⟩ := List.mem_map.1 hname'
  obtain ⟨hmem, hkind⟩ := List.mem_filter.1 hd
  obtain ⟨hmem', hkind'⟩ := List.mem_filter.1 hd'
  obtain rfl := List.inj_on_of_nodup_map h hmem' hmem heq
  exact hne ((of_decide_eq_true hkind).symm.trans (of_decide_eq_true hkind'))

/-- Variables of different names are all new to the empty context. -/
theorem fresh_empty {ds : List Declared} (h : (ds.map Declared.name).Nodup) :
    Context.empty.fresh ds = ds := by
  have hall : ds.filter (fun d => !Context.empty.isDeclared d.name) = ds :=
    List.filter_eq_self.2 fun _ _ => rfl
  rw [Context.fresh, hall, firstOfEach_of_nodup h]

theorem context_ext {c c' : Context} (h : ∀ kind, c.table kind = c'.table kind) : c = c' := by
  obtain ⟨vars, frozenVars, ivars⟩ := c
  obtain ⟨rfl⟩ : vars = c'.vars := h .state
  obtain ⟨rfl⟩ : frozenVars = c'.frozenVars := h .frozen
  obtain ⟨rfl⟩ : ivars = c'.ivars := h .input
  rfl

section Again

variable {m : Merge} {ds : List Declared} {others : List Section}
  {modules : List (String × String)}

/-- The sections of declarations in the text of a merged model declare its new variables. -/
theorem Merge.Gathers.declared_rowed {context : Context} (hm : m.Gathers context ds others modules)
    (hds : ∀ d ∈ context.fresh ds, d.IsShowable) {s : Section}
    (hs : s ∈ Model.shown m.model.sections) (hkind : s.kind.isDeclaration) :
    s.rowed.declared = (context.fresh ds).filter (·.kind.sectionKind = s.kind) ∧
      ∀ text ∈ s.rowed.declarations, ∃ entry, parseDeclaration text = .ok entry := by
  obtain ⟨kind, hsame⟩ := isDeclaration_iff.1 hkind
  obtain ⟨-, hbody⟩ := hm.body_of_mem_shown hs hsame
  have hshowable : ∀ d ∈ context.freshOf ds kind, d.IsShowable :=
    fun d hd => hds d (List.mem_of_mem_filter hd)
  have hof : ∀ d ∈ context.freshOf ds kind, d.kind = kind :=
    fun d hd => of_decide_eq_true (List.mem_filter.1 hd).2
  rw [hsame, filter_sectionKind]
  have hlegible : ∀ d ∈ context.freshOf ds kind, d.IsLegible :=
    fun d hd => (hshowable d hd).isLegible
  exact Section.declared_of_content (s := s.rowed) hsame hlegible hof
    (content_rowed hshowable hbody)

/-- What is shown for a kind declares the new variables of that kind. -/
theorem Merge.Gathers.declared_shownOfKind {context : Context}
    (hm : m.Gathers context ds others modules) (hds : ∀ d ∈ context.fresh ds, d.IsShowable)
    {k : SectionKind} (hk : k ∈ SectionKind.all) :
    (Model.shownOfKind k m.model.sections).flatMap (fun s => s.rowed.declared) =
      (context.fresh ds).filter (·.kind.sectionKind = k) := by
  by_cases hdeclares : k.isDeclaration
  · obtain ⟨kind, rfl⟩ := isDeclaration_iff.1 hdeclares
    have hshown : ∀ s ∈ Model.shownOfKind kind.sectionKind m.model.sections,
        s.rowed.declared = (context.fresh ds).filter (·.kind.sectionKind = kind.sectionKind) := by
      intro s hs
      have hsame := Model.kind_of_mem_shownOfKind hs
      have hmem : s ∈ Model.shown m.model.sections := List.mem_flatMap.2 ⟨_, hk, hs⟩
      rw [(hm.declared_rowed hds hmem (by rw [hsame]; exact hdeclares)).1, hsame]
    have hnew : (context.fresh ds).filter (·.kind.sectionKind = kind.sectionKind) =
        context.freshOf ds kind := filter_sectionKind _ _
    rw [List.flatMap_congr hshown, hnew]
    unfold Model.shownOfKind
    rw [hm.ofKind_declaration]
    -- one section shows all new variables of the kind, if there are any
    cases context.freshOf ds kind with
    | nil => rfl
    | cons d new =>
        rw [List.map_cons]
        dsimp only
        rw [if_pos (isGathered_of_isDeclaration hdeclares), List.flatMap_singleton]
  · have hnone : ∀ s ∈ Model.shownOfKind k m.model.sections, s.rowed.declared = [] := by
      intro s hs
      have hsame : s.rowed.kind = k := by
        rw [Section.kind_rowed, Model.kind_of_mem_shownOfKind hs]
      unfold Section.declared
      rw [hsame, SectionKind.variableKind?_eq_none (by simpa using hdeclares)]
    rw [List.flatMap_congr hnone, List.filter_eq_nil_iff.2]
    · simp
    · intro d _
      have hd := d.kind.isDeclaration_sectionKind
      simp only [decide_eq_true_eq]
      rintro rfl
      exact hdeclares hd

/-- The text of a merged model declares its new variables, grouped by kind. -/
theorem Merge.Gathers.declaredIn_parse {context : Context}
    (hm : m.Gathers context ds others modules) (hds : ∀ d ∈ context.fresh ds, d.IsShowable)
    (hreadable : m.model.IsReadable) :
    declaredIn [parse m.model.text] = groupedByKind (context.fresh ds) := by
  have htidy (sections : List Section) : sections.flatMap Section.declared =
      (sections.map Section.tidy).flatMap Section.declared := by
    simp only [List.flatMap_map, declared_tidy]
  rw [declaredIn, List.flatMap_singleton, htidy, (Model.parse_text hreadable).1, List.flatMap_map,
    Model.shown, List.flatMap_assoc, List.flatMap_congr fun k => hm.declared_shownOfKind hds]
  rfl

/-- All declarations in the text of a merged model can be read. -/
theorem Merge.Gathers.exists_entry_of_parse {context : Context}
    (hm : m.Gathers context ds others modules) (hds : ∀ d ∈ context.fresh ds, d.IsShowable)
    (hreadable : m.model.IsReadable) :
    ∀ s ∈ (parse m.model.text).sections, s.kind.isDeclaration →
      ∀ text ∈ s.declarations, ∃ entry, parseDeclaration text = .ok entry := by
  intro s hs hkind text htext
  have htidy := List.mem_map_of_mem (f := Section.tidy) hs
  rw [(Model.parse_text hreadable).1] at htidy
  obtain ⟨shown, hshown, heq⟩ := List.mem_map.1 htidy
  have hsame : shown.kind = s.kind := by rw [← Section.kind_rowed, heq, Section.kind_tidy]
  rw [← declarations_tidy, ← heq] at htext
  exact (hm.declared_rowed hds hshown (hsame ▸ hkind)).2 text htext

/-- Sections that declare nothing are parsed to what is shown. -/
theorem Model.map_tidy_ofKind_parse {m : Model} (hreadable : m.IsReadable) {kind : SectionKind}
    (hother : kind.isDeclaration = false) :
    (ofKind kind (parse m.text).sections).map Section.tidy =
      (ofKind kind (shown m.sections)).map Section.tidy := by
  have htidy : ∀ s ∈ ofKind kind (shown m.sections), s.rowed = s.tidy := by
    intro s hs
    obtain ⟨hmem, hsame⟩ := List.mem_filter.1 hs
    exact Section.rowed_eq_tidy (hreadable.sections s hmem) (of_decide_eq_true hsame ▸ hother)
  rw [map_ofKind Section.kind_tidy, (parse_text hreadable).1, ← map_ofKind Section.kind_rowed]
  exact List.map_congr_left htidy

/-- A merged model that can be parsed is merged again to what it was. -/
theorem Merge.Gathers.exists_again (hm : m.Gathers .empty ds others modules)
    (hds : ∀ d ∈ Context.empty.fresh ds, d.IsShowable) (hreadable : m.model.IsReadable) :
    ∃ m', Ends (mergeFragments [parse m.model.text]) (.start .empty) (.ok ⟨⟩) m' ∧
      m'.model.text = m.model.text ∧ m'.context = m.context := by
  have hparses := hm.exists_entry_of_parse hds hreadable
  obtain ⟨m', hagain⟩ := @exists_ends_mergeFragments [parse m.model.text]
    (by simpa using hparses) (.start .empty)
  have hm' := gathers_of_mergeFragments hagain
  have hfresh : Context.empty.fresh (declaredIn [parse m.model.text]) =
      groupedByKind (Context.empty.fresh ds) := by
    rw [hm.declaredIn_parse hds hreadable]
    exact fresh_empty (nodup_groupedByKind (nodup_map_firstOfEach _))
  have hfreshOf (kind : VariableKind) :
      Context.empty.freshOf (declaredIn [parse m.model.text]) kind =
        Context.empty.freshOf ds kind := by
    rw [Context.freshOf, hfresh, filter_groupedByKind, Context.freshOf]
  refine ⟨m', hagain, Model.text_congr (fun kind => ?_) ?_, context_ext fun kind => ?_⟩
  · by_cases hkind : kind.isDeclaration
    · obtain ⟨k, rfl⟩ := isDeclaration_iff.1 hkind
      apply Model.map_tidy_shownOfKind
      rw [hm'.ofKind_declaration, hm.ofKind_declaration, hfreshOf]
    · have hother : kind.isDeclaration = false := by simpa using hkind
      rw [← Model.shownOfKind_shown kind m.model.sections]
      apply Model.map_tidy_shownOfKind
      rw [hm'.ofKind_other hother, List.flatMap_singleton, Model.ofKind_filter_isOther hother]
      exact Model.map_tidy_ofKind_parse hreadable hother
  · rw [hm'.modules, List.flatMap_singleton, (Model.parse_text hreadable).2, hm.modules]
    exact firstOfEach_of_nodup (nodup_map_firstOfEach _)
  · rw [hm'.declared, Context.table_after, hm.declared, Context.table_after]
    exact congrArg _ (congrArg _ (hfreshOf kind))

end Again

/-! ## Combinations without options -/

section Combine

variable {sources : List String} {context context' : Context} {log log' : Log} {text : String}

theorem ends_combine_none_ok
    (h : Ends (combine sources .none context) log (.ok (text, context')) log') :
    ∃ m, Ends (mergeFragments (sources.map parse)) (.start context) (.ok ⟨⟩) m ∧
      text = m.model.text ∧ context' = m.context := by
  obtain ⟨plugins, m, hplugins, hmerged, hresult⟩ := ends_combine_ok_iff.1 ⟨log', h⟩
  obtain rfl : plugins = [] := (Except.ok.inj hplugins).symm
  obtain ⟨⟨⟩, m₁, hfragments, hvariables⟩ := ends_bind_ok.1 hmerged
  obtain ⟨-, rfl⟩ := ends_pure_ok.1 hvariables
  obtain ⟨rfl, rfl⟩ := Prod.mk.inj hresult
  exact ⟨m, hfragments, rfl, rfl⟩

theorem exists_ends_combine_none {m : Merge}
    (h : Ends (mergeFragments (sources.map parse)) (.start context) (.ok ⟨⟩) m) (log : Log) :
    ∃ log', Ends (combine sources .none context) log (.ok (m.model.text, m.context)) log' :=
  ends_combine_ok_iff.2 ⟨[], m, rfl, ends_bind_ok.2 ⟨⟨⟩, m, h, rfl⟩, rfl⟩

/-- A text that was combined from regular sources is a normal form: combined by itself, it gives
itself, and the same variables. -/
theorem combine_combined (hsources : ∀ source ∈ sources, IsRegular source)
    (h : Ends (combine sources .none .empty) log (.ok (text, context)) log') (log₁ : Log) :
    ∃ log₂, Ends (combine [text] .none .empty) log₁ (.ok (text, context)) log₂ := by
  obtain ⟨m, hmerged, rfl, rfl⟩ := ends_combine_none_ok h
  obtain ⟨m', hagain, htext, hcontext⟩ := (gathers_of_mergeFragments hmerged).exists_again
    (fun d => isShowable_of_mem_fresh hsources) (isReadable_of_mergeFragments hsources hmerged)
  have hsource : Ends (mergeFragments ([m.model.text].map parse)) (.start .empty) (.ok ⟨⟩) m' :=
    hagain
  obtain ⟨log₂, hends⟩ := exists_ends_combine_none hsource log₁
  rw [htext, hcontext] at hends
  exact ⟨log₂, hends⟩

end Combine

/-- Two sources that declare a variable twice, spread a type over lines, define in two places and
bring a module of their own. -/
def scattered : List String :=
  ["DEFINE a := p; -- VAR\nVAR m : \x7bx,\n y \x7d; p : 0..1;",
    "FROZENVAR p : 0..2;\nINIT p\nDEFINE\n  b := a;\nMODULE v \nVAR c : 0..1;\n\n"]

/-- The sources as one text, which combining leaves as it is. -/
def scatteredCombined : String :=
  "MODULE main\nVAR\n    m : \x7bx,\ny \x7d;\n    p : 0..1;\nDEFINE\n    a := p; -- VAR\n" ++
    "    b := a;\nINIT p\n\nMODULE v \nVAR c : 0..1;\n"

theorem combine_combined_scattered :
    (∀ source ∈ scattered, IsRegular source) ∧
      (∃ log', Ends (combine scattered .none .empty) []
        (.ok (scatteredCombined, ⟨[("m", "\x7bx,\ny \x7d"), ("p", "0..1")], [], []⟩)) log') ∧
      ∃ log₂, Ends (combine [scatteredCombined] .none .empty) []
        (.ok (scatteredCombined, ⟨[("m", "\x7bx,\ny \x7d"), ("p", "0..1")], [], []⟩)) log₂ := by
  have hregular : ∀ source ∈ scattered, IsRegular source := by
    have hall : scattered.all fun source =>
        !source.toList.contains '\r' && (lines source).all keywordsLead := by decide +kernel
    intro source hsource
    obtain ⟨hreturn, hlead⟩ := Bool.and_eq_true_iff.1 (List.all_eq_true.1 hall source hsource)
    exact ⟨by simpa using hreturn, hlead⟩
  obtain ⟨⟨text, context⟩, log', hends, hresult⟩ := exists_ends_ok_of_endsIn
    (combine scattered .none .empty) []
    (fun r => r = (scatteredCombined, ⟨[("m", "\x7bx,\ny \x7d"), ("p", "0..1")], [], []⟩))
    (by decide +kernel)
  rw [of_decide_eq_true hresult] at hends
  exact ⟨hregular, ⟨log', hends⟩, combine_combined hregular hends []⟩

end Punctual
