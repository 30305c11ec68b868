import Punctual.Proofs.Model.Merging

/-!
# Merges in succession

Of what has been merged before, a merge reads the context only, and it adds what it merges behind
(`IsAdditive`). So fragments can be merged in one step or one after the other, as long as each merge
begins with the context that the one before left: the same merges succeed, and together they hold
what the one step holds (`mergeFragments_append`).
-/

namespace Punctual

open Fragment

/-! ## One merge behind another -/

/-- The first model with the second behind it. Of the modules of the second, those with names that
the first model defines are left out. -/
def Model.followedBy (a b : Model) : Model :=
  ⟨a.sections ++ b.sections,
    a.modules ++ b.modules.filter fun e => !(find? e.1 a.modules).isSome⟩

/-- The first merge with the second behind it, which began with the context of the first. -/
def Merge.followedBy (a b : Merge) : Merge :=
  ⟨b.context, a.model.followedBy b.model, a.warnings ++ b.warnings⟩

namespace Model

theorem followedBy_empty (a : Model) : a.followedBy .empty = a := by
  simp [followedBy, empty]

theorem empty_followedBy (a : Model) : empty.followedBy a = a := by
  simp [followedBy, empty, find?]

theorem find?_append_isSome (name : String) (es fs : List (String × String)) :
    (find? name (es ++ fs)).isSome = ((find? name es).isSome || (find? name fs).isSome) := by
  induction es with
  | nil => rfl
  | cons e es ih =>
      obtain ⟨n, text⟩ := e
      by_cases hn : n = name
      · simp [find?, hn]
      · simpa [find?, hn] using ih

/-- A filter on names finds a name if it lets the name pass and the whole list has it. -/
theorem find?_filter_isSome (p : String → Bool) (name : String) (es : List (String × String)) :
    (find? name (es.filter fun e => p e.1)).isSome = (p name && (find? name es).isSome) := by
  induction es with
  | nil => simp [find?]
  | cons e es ih =>
      obtain ⟨n, text⟩ := e
      rw [List.filter_cons]
      by_cases hn : n = name
      · subst hn
        cases hp : p n <;> simp_all [find?]
      · cases hp : p n <;> simp_all [find?]

/-- A module is found in two models together if one of them has it. -/
theorem find?_followedBy_isSome (name : String) (a b : Model) :
    (find? name (a.followedBy b).modules).isSome =
      ((find? name a.modules).isSome || (find? name b.modules).isSome) := by
  rw [followedBy, find?_append_isSome, find?_filter_isSome fun n => !(find? n a.modules).isSome]
  cases (find? name a.modules).isSome <;> rfl

theorem followedBy_assoc (a b c : Model) :
    (a.followedBy b).followedBy c = a.followedBy (b.followedBy c) := by
  have hmodules : c.modules.filter (fun e => !(find? e.1 (a.followedBy b).modules).isSome) =
      (c.modules.filter fun e => !(find? e.1 b.modules).isSome).filter
        fun e => !(find? e.1 a.modules).isSome := by
    rw [List.filter_filter]
    apply List.filter_congr
    intro e _
    rw [find?_followedBy_isSome, Bool.not_or]
  rw [followedBy, hmodules]
  simp [followedBy]

theorem addSection_followedBy (a b : Model) (s : Section) :
    (a.followedBy b).addSection s = a.followedBy (b.addSection s) := by
  simp [followedBy, addSection]

theorem addModule_followedBy (a b : Model) (e : String × String) :
    (a.followedBy b).addModule e = a.followedBy (b.addModule e) := by
  unfold addModule
  rw [find?_followedBy_isSome]
  cases hb : (find? e.1 b.modules).isSome with
  | true => rw [Bool.or_true, if_pos rfl, if_pos rfl]
  | false =>
      rw [Bool.or_false, if_neg Bool.false_ne_true]
      cases ha : (find? e.1 a.modules).isSome with
      | true =>
          have hdropped : [e].filter (fun e => !(find? e.1 a.modules).isSome) = [] := by
            rw [List.filter_singleton, ha]
            rfl
          rw [if_pos rfl]
          simp only [followedBy, List.filter_append, hdropped, List.append_nil]
      | false =>
          have hadded : [e].filter (fun e => !(find? e.1 a.modules).isSome) = [e] := by
            rw [List.filter_singleton, ha]
            rfl
          rw [if_neg Bool.false_ne_true]
          simp only [followedBy, List.filter_append, hadded, List.append_assoc]

theorem addModules_followedBy (a b : Model) (es : List (String × String)) :
    es.foldl addModule (a.followedBy b) = a.followedBy (es.foldl addModule b) := by
  induction es generalizing b with
  | nil => rfl
  | cons e es ih => rw [List.foldl_cons, List.foldl_cons, addModule_followedBy, ih]

end Model

namespace Merge

theorem followedBy_start (a : Merge) : a.followedBy (.start a.context) = a := by
  simp [followedBy, start, Model.followedBy_empty]

theorem start_followedBy (context : Context) (a : Merge) :
    (Merge.start context).followedBy a = a := by
  simp [followedBy, start, Model.empty_followedBy]

theorem followedBy_assoc (a b c : Merge) :
    (a.followedBy b).followedBy c = a.followedBy (b.followedBy c) := by
  simp [followedBy, Model.followedBy_assoc]

theorem declare_followedBy (a b : Merge) (kind : SectionKind) (name type : String) :
    (a.followedBy b).declare kind name type = a.followedBy (b.declare kind name type) := by
  have hcontext : (a.followedBy b).context = b.context := rfl
  unfold declare
  rw [hcontext]
  cases b.context.typeOf? name with
  | some kept => simp [followedBy]
  | none => simp [followedBy, Model.addSection_followedBy]

end Merge

/-! ## Actions that add -/

/-- What the action does depends on the context only, and it comes behind what was merged before. -/
def IsAdditive (act : Merging Unit) : Prop :=
  ∀ m r n, Ends act (.start m.context) r n → Ends act m r (m.followedBy n)

section Additive

variable {act : Merging Unit} {r : Except CombineError Unit} {m m' : Merge}

theorem IsAdditive.ends_iff (h : IsAdditive act) :
    Ends act m r m' ↔ ∃ n, Ends act (.start m.context) r n ∧ m' = m.followedBy n := by
  constructor
  · intro hends
    obtain ⟨r', n, hstart⟩ := exists_ends act (.start m.context)
    obtain ⟨rfl, rfl⟩ := hends.unique (h m r' n hstart)
    exact ⟨n, hstart, rfl⟩
  · rintro ⟨n, hstart, rfl⟩
    exact h m r n hstart

theorem isAdditive_pure : IsAdditive (pure ⟨⟩) := by
  intro m r n h
  obtain ⟨rfl, rfl⟩ := ends_pure.1 h
  exact ends_pure.2 ⟨rfl, Merge.followedBy_start m⟩

theorem isAdditive_throw (e : CombineError) : IsAdditive (throw e) := by
  intro m r n h
  obtain ⟨rfl, rfl⟩ := ends_throw.1 h
  exact ends_throw.2 ⟨rfl, Merge.followedBy_start m⟩

/-- A change adds if it commutes with what stands in front. -/
theorem isAdditive_modify {f : Merge → Merge}
    (hf : ∀ a b : Merge, f (a.followedBy b) = a.followedBy (f b)) : IsAdditive (modify f) := by
  intro m r n h
  obtain ⟨rfl, rfl⟩ := ends_modify.1 h
  refine ends_modify.2 ⟨rfl, ?_⟩
  rw [← hf, Merge.followedBy_start]

theorem IsAdditive.bind {f : Unit → Merging Unit} (hact : IsAdditive act)
    (hf : ∀ u, IsAdditive (f u)) : IsAdditive (act >>= f) := by
  intro m r n h
  rcases ends_bind.1 h with ⟨u, a, hfirst, hrest⟩ | ⟨e, rfl, hfirst⟩
  · obtain ⟨b, hstart, rfl⟩ := (hf u).ends_iff.1 hrest
    rw [← Merge.followedBy_assoc]
    exact ends_bind.2 (.inl ⟨u, _, hact m _ a hfirst, hf u _ r b hstart⟩)
  · exact ends_bind.2 (.inr ⟨e, rfl, hact m _ n hfirst⟩)

theorem isAdditive_forM {α : Type} {as : List α} {g : α → Merging Unit}
    (hg : ∀ a, IsAdditive (g a)) : IsAdditive (as.forM g) := by
  induction as with
  | nil => exact isAdditive_pure
  | cons a as ih => exact (hg a).bind fun _ => ih

theorem isAdditive_mergeDeclaration (kind : SectionKind) (declaration : String) :
    IsAdditive (mergeDeclaration kind declaration) := by
  unfold mergeDeclaration
  split
  · exact isAdditive_throw _
  · exact isAdditive_modify fun a b => a.declare_followedBy b _ _ _

theorem isAdditive_mergeSection (s : Section) : IsAdditive (mergeSection s) := by
  unfold mergeSection
  split
  · exact isAdditive_forM fun d => isAdditive_mergeDeclaration s.kind d
  · apply isAdditive_modify
    intro a b
    simp [Merge.followedBy, Model.addSection_followedBy]

theorem isAdditive_mergeFragment (f : Fragment) : IsAdditive (mergeFragment f) := by
  apply (isAdditive_forM isAdditive_mergeSection).bind
  intro _
  apply isAdditive_modify
  intro a b
  simp [Merge.followedBy, Model.addModules_followedBy]

theorem isAdditive_mergeFragments (fs : List Fragment) : IsAdditive (mergeFragments fs) :=
  isAdditive_forM isAdditive_mergeFragment

theorem isAdditive_mergeWithVariables (fs : List Fragment) (declarations : List String) :
    IsAdditive (mergeWithVariables fs declarations) :=
  (isAdditive_mergeFragments fs).bind fun _ =>
    isAdditive_forM fun d => isAdditive_mergeDeclaration .var d

end Additive

/-! ## Fragments in two steps -/

section TwoSteps

variable {fs gs : List Fragment} {declarations : List String} {m n : Merge}

theorem mergeFragments_of_append (fs gs : List Fragment) :
    mergeFragments (fs ++ gs) = mergeFragments fs >>= fun _ => mergeFragments gs :=
  List.forM_append

theorem mergeWithVariables_of_append (fs gs : List Fragment) (declarations : List String) :
    mergeWithVariables (fs ++ gs) declarations =
      mergeFragments fs >>= fun _ => mergeWithVariables gs declarations := by
  unfold mergeWithVariables
  rw [mergeFragments_of_append, bind_assoc]

/-- A second action begins anew with the context that the first one left. -/
theorem exists_ends_iff_of_isAdditive {act rest : Merging Unit} (hrest : IsAdditive rest)
    {r : Except CombineError Unit} :
    (∃ x a, Ends act m (.ok x) a ∧ Ends rest a r n) ↔
      ∃ a b, Ends act m (.ok ⟨⟩) a ∧ Ends rest (.start a.context) r b ∧ n = a.followedBy b := by
  constructor
  · rintro ⟨⟨⟩, a, hact, hends⟩
    obtain ⟨b, hstart, rfl⟩ := hrest.ends_iff.1 hends
    exact ⟨a, b, hact, hstart, rfl⟩
  · rintro ⟨a, b, hact, hstart, rfl⟩
    exact ⟨⟨⟩, a, hact, hrest a _ b hstart⟩

theorem ends_bind_ok_of_isAdditive {act rest : Merging Unit} (hrest : IsAdditive rest) :
    Ends (act >>= fun _ => rest) m (.ok ⟨⟩) n ↔
      ∃ a b, Ends act m (.ok ⟨⟩) a ∧ Ends rest (.start a.context) (.ok ⟨⟩) b ∧
        n = a.followedBy b :=
  ends_bind_ok.trans (exists_ends_iff_of_isAdditive hrest)

theorem ends_bind_error_of_isAdditive {act rest : Merging Unit} (hrest : IsAdditive rest)
    {e : CombineError} :
    Ends (act >>= fun _ => rest) m (.error e) n ↔ Ends act m (.error e) n ∨
      ∃ a b, Ends act m (.ok ⟨⟩) a ∧ Ends rest (.start a.context) (.error e) b ∧
        n = a.followedBy b := by
  rw [ends_bind_error, or_comm]
  exact or_congr_right (exists_ends_iff_of_isAdditive hrest)

end TwoSteps

/-! ## Fragments in any number of steps -/

/-- Groups of fragments are merged one after the other, each to a model of its own and with the
context that the one before left. The merges are listed in order. -/
inductive MergedInTurn : Context → List (List Fragment) → List Merge → Prop
  | nil (context : Context) : MergedInTurn context [] []
  | cons {context : Context} {fs : List Fragment} {groups : List (List Fragment)} {m : Merge}
      {ms : List Merge} (first : Ends (mergeFragments fs) (.start context) (.ok ⟨⟩) m)
      (rest : MergedInTurn m.context groups ms) : MergedInTurn context (fs :: groups) (m :: ms)

theorem foldl_followedBy (a b : Merge) (ms : List Merge) :
    ms.foldl Merge.followedBy (a.followedBy b) =
      a.followedBy (ms.foldl Merge.followedBy b) := by
  induction ms generalizing b with
  | nil => rfl
  | cons m ms ih => rw [List.foldl_cons, List.foldl_cons, Merge.followedBy_assoc, ih]

/-- Merging in turn gives, one behind another, what merging in one step gives. -/
theorem ends_mergeFragments_flatten {context : Context} {groups : List (List Fragment)}
    {m : Merge} :
    Ends (mergeFragments groups.flatten) (.start context) (.ok ⟨⟩) m ↔
      ∃ ms, MergedInTurn context groups ms ∧
        m = ms.foldl Merge.followedBy (.start context) := by
  induction groups generalizing context m with
  | nil =>
      constructor
      · intro h
        exact ⟨[], .nil context, (ends_pure.1 h).2⟩
      · rintro ⟨ms, hms, rfl⟩
        cases hms
        exact ends_pure.2 ⟨rfl, rfl⟩
  | cons fs groups ih =>
      rw [List.flatten_cons, mergeFragments_of_append,
        ends_bind_ok_of_isAdditive (isAdditive_mergeFragments _)]
      have hjoin (a : Merge) (ms : List Merge) :
          (a :: ms).foldl Merge.followedBy (.start context) =
            a.followedBy (ms.foldl Merge.followedBy (.start a.context)) := by
        rw [List.foldl_cons, Merge.start_followedBy, ← foldl_followedBy, Merge.followedBy_start]
      constructor
      · rintro ⟨a, b, hfirst, hrest, rfl⟩
        obtain ⟨ms, hms, rfl⟩ := ih.1 hrest
        exact ⟨a :: ms, .cons hfirst hms, (hjoin a ms).symm⟩
      · rintro ⟨_, hms, rfl⟩
        cases hms with
        | cons hfirst hrest => exact ⟨_, _, hfirst, ih.2 ⟨_, hrest, rfl⟩, hjoin _ _⟩

/-! ## Combinations in succession -/

/-- A combination succeeds and leaves a context. -/
def CombinesTo (sources : List String) (options : CombineOptions) (context context' : Context) :
    Prop :=
  ∃ text log, Ends (combine sources options context) [] (.ok (text, context')) log

theorem combinesTo_iff {sources : List String} {options : CombineOptions}
    {context context' : Context} :
    CombinesTo sources options context context' ↔
      (∃ plugins, Plugin.select options.plugins options.pluginOptions = .ok plugins) ∧
        ∃ m, Ends (mergeWithVariables (sources.map parse) options.declarations) (.start context)
          (.ok ⟨⟩) m ∧ context' = m.context := by
  constructor
  · rintro ⟨text, hends⟩
    obtain ⟨plugins, m, hselect, hmerged, hresult⟩ := ends_combine_ok_iff.1 hends
    exact ⟨⟨plugins, hselect⟩, m, hmerged, (Prod.mk.inj hresult).2⟩
  · rintro ⟨⟨plugins, hselect⟩, m, hmerged, rfl⟩
    exact ⟨_, ends_combine_ok_iff.2 ⟨plugins, m, hselect, hmerged, rfl⟩⟩

/-- Sources can be combined in two steps, with the extra variables in the second. -/
theorem combinesTo_append {sources sources' : List String} {options : CombineOptions}
    {context context' : Context} :
    CombinesTo (sources ++ sources') options context context' ↔
      ∃ between, CombinesTo sources { options with declarations := [] } context between ∧
        CombinesTo sources' options between context' := by
  have hplain (fs : List Fragment) (m n : Merge) :
      Ends (mergeWithVariables fs []) m (.ok ⟨⟩) n ↔
        Ends (mergeFragments fs) m (.ok ⟨⟩) n := by
    unfold mergeWithVariables
    rw [ends_bind_ok]
    constructor
    · rintro ⟨⟨⟩, a, hfragments, hnone⟩
      rw [(ends_pure.1 hnone).2]
      exact hfragments
    · exact fun h => ⟨⟨⟩, n, h, ends_pure.2 ⟨rfl, rfl⟩⟩
  simp only [combinesTo_iff, hplain, List.map_append, mergeWithVariables_of_append,
    ends_bind_ok_of_isAdditive (isAdditive_mergeWithVariables _ _)]
  constructor
  · rintro ⟨hselect, _, ⟨a, b, hfirst, hrest, rfl⟩, rfl⟩
    exact ⟨a.context, ⟨hselect, a, hfirst, rfl⟩, hselect, b, hrest, rfl⟩
  · rintro ⟨_, ⟨hselect, a, hfirst, rfl⟩, -, b, hrest, rfl⟩
    exact ⟨hselect, _, ⟨a, b, hfirst, hrest, rfl⟩, rfl⟩

/-- Merging fragments and then others with the context that is left is merging all of them: one
succeeds if the other does, and then the context is the same, the sections stand behind each other,
and so do the modules, without those whose names the first fragments define. If it fails, it fails
with the same error and leaves the same context. What holds of two steps holds of any number, and of
combinations that hand the context on. -/
theorem mergeFragments_append :
    (∀ (fs gs : List Fragment) (context : Context) (m : Merge),
      Ends (mergeFragments (fs ++ gs)) (.start context) (.ok ⟨⟩) m ↔
        ∃ a b, Ends (mergeFragments fs) (.start context) (.ok ⟨⟩) a ∧
          Ends (mergeFragments gs) (.start a.context) (.ok ⟨⟩) b ∧ m = a.followedBy b) ∧
    (∀ (fs gs : List Fragment) (context : Context) (e : CombineError) (m : Merge),
      Ends (mergeFragments (fs ++ gs)) (.start context) (.error e) m ↔
        Ends (mergeFragments fs) (.start context) (.error e) m ∨
          ∃ a b, Ends (mergeFragments fs) (.start context) (.ok ⟨⟩) a ∧
            Ends (mergeFragments gs) (.start a.context) (.error e) b ∧ m = a.followedBy b) ∧
    (∀ (groups : List (List Fragment)) (context : Context) (m : Merge),
      Ends (mergeFragments groups.flatten) (.start context) (.ok ⟨⟩) m ↔
        ∃ ms, MergedInTurn context groups ms ∧
          m = ms.foldl Merge.followedBy (.start context)) ∧
    ∀ (sources sources' : List String) (options : CombineOptions) (context context' : Context),
      CombinesTo (sources ++ sources') options context context' ↔
        ∃ between, CombinesTo sources { options with declarations := [] } context between ∧
          CombinesTo sources' options between context' := by
  refine ⟨?_, ?_, ?_, ?_⟩
  · intro fs gs context m
    rw [mergeFragments_of_append]
    exact ends_bind_ok_of_isAdditive (isAdditive_mergeFragments gs)
  · intro fs gs context e m
    rw [mergeFragments_of_append]
    exact ends_bind_error_of_isAdditive (isAdditive_mergeFragments gs)
  · intro groups context m
    exact ends_mergeFragments_flatten
  · intro sources sources' options context context'
    exact combinesTo_append

end Punctual
