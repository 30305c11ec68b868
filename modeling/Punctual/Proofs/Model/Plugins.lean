import Punctual.Proofs.Model.Merging

/-!
# Selections of plugins

Plugins are selected by a list of names, but only the set of the names matters. A plugin that runs
twice does what it does once (`dedup_dedup`), the two plugins can be exchanged (`dedup_filter`), and
an option is taken by all plugins of a kind or by none of them (`setOptions_withPatterns`). So
combinations with the same names, in whatever order and however often, give the same model and the
same context (`combine_congr_plugins`).
-/

namespace Punctual

open Fragment

namespace Plugin

/-! ## Rewriting in any order -/

section Rewrites

variable {p : Section → Bool} {s : Section} {keep : List String}

/-- Constraints that are left are different from each other, so dropping repeated ones again drops
none. -/
theorem dedup_dedup (seen : List (SectionKind × List String)) (sections : List Section) :
    dedup seen (dedup seen sections) = dedup seen sections := by
  fun_induction dedup seen sections with
  | case1 => rfl
  | case2 seen s ss hplain ih =>
      rw [dedup, hplain]
      exact congrArg (s :: ·) ih
  | case3 seen s ss c hc hseen ih => exact ih
  | case4 seen s ss c hc hnew ih =>
      rw [dedup, hc]
      dsimp only
      rw [if_neg hnew, ih]

/-- A filter that keeps all constraints can go first or last. -/
theorem dedup_filter (hp : ∀ s, (constraint? s).isSome → p s)
    (seen : List (SectionKind × List String)) (sections : List Section) :
    dedup seen (sections.filter p) = (dedup seen sections).filter p := by
  fun_induction dedup seen sections with
  | case1 => rfl
  | case2 seen s ss hplain ih =>
      by_cases hs : p s
      · rw [List.filter_cons_of_pos hs, List.filter_cons_of_pos hs, dedup, hplain]
        exact congrArg (s :: ·) ih
      · rw [List.filter_cons_of_neg hs, List.filter_cons_of_neg hs, ih]
  | case3 seen s ss c hc hseen ih =>
      have hs : p s := hp s (by simp [hc])
      rw [List.filter_cons_of_pos hs, dedup, hc]
      dsimp only
      rw [if_pos hseen, ih]
  | case4 seen s ss c hc hnew ih =>
      have hs : p s := hp s (by simp [hc])
      rw [List.filter_cons_of_pos hs, List.filter_cons_of_pos hs, dedup, hc]
      dsimp only
      rw [if_neg hnew, ih]

/-- No constraint is dropped as a specification. -/
theorem isKept_of_constraint? (h : (constraint? s).isSome) : isKept keep s := by
  have hkind : s.kind ≠ .spec := by
    intro hspec
    simp [constraint?, hspec, SectionKind.isConstraint] at h
  simp [isKept, hkind]

end Rewrites

/-! ## Plugins of given kinds -/

section Kinds

variable {kinds kinds' : List PluginKind} {keep : List String}

/-- The plugin of a kind, with the patterns that were set so far. -/
def withPatterns (keep : List String) : PluginKind → Plugin
  | .dropSpecs => .dropSpecs keep
  | .dedupConstraints => .dedupConstraints

/-- What plugins of some kinds leave of sections: specifications are dropped if one of the plugins
drops them, and then repeated constraints, if one of the plugins drops these. -/
def rewriteAll (kinds : List PluginKind) (keep : List String) (sections : List Section) :
    List Section :=
  let kept := if .dropSpecs ∈ kinds then sections.filter (isKept keep) else sections
  if .dedupConstraints ∈ kinds then dedup [] kept else kept

theorem rewriteAll_cons (kind : PluginKind) (kinds : List PluginKind) (keep : List String)
    (sections : List Section) :
    rewriteAll kinds keep ((withPatterns keep kind).rewrite sections) =
      rewriteAll (kind :: kinds) keep sections := by
  have hcomm := dedup_filter (p := isKept keep) (fun _ => isKept_of_constraint?) []
  cases kind with
  | dropSpecs =>
      by_cases hdrop : .dropSpecs ∈ kinds
      · simp [rewriteAll, rewrite, withPatterns, hdrop]
      · simp [rewriteAll, rewrite, withPatterns, hdrop]
  | dedupConstraints =>
      by_cases hdrop : .dropSpecs ∈ kinds
      · simp [rewriteAll, rewrite, withPatterns, hdrop, ← hcomm, dedup_dedup]
      · simp [rewriteAll, rewrite, withPatterns, hdrop, dedup_dedup]

/-- Plugins with the same patterns leave what their kinds leave. -/
theorem applyPlugins_withPatterns (kinds : List PluginKind) (keep : List String) (model : Model) :
    (applyPlugins (kinds.map (withPatterns keep)) model).1 =
      { model with sections := rewriteAll kinds keep model.sections } := by
  induction kinds generalizing model with
  | nil => rfl
  | cons kind kinds ih =>
      have hrest := ih ((withPatterns keep kind).apply model).1
      rw [← rewriteAll_cons]
      exact hrest

theorem rewriteAll_congr (h : ∀ k, k ∈ kinds ↔ k ∈ kinds') :
    rewriteAll kinds keep = rewriteAll kinds' keep := by
  funext sections
  unfold rewriteAll
  simp only [h]

end Kinds

/-! ## Names and options -/

section Options

variable {names names' options : List String} {kinds : List PluginKind}

theorem ofName_eq_ok_iff {name : String} {kind : PluginKind} :
    PluginKind.ofName name = .ok kind ↔ name = kind.name := by
  constructor
  · intro h
    unfold PluginKind.ofName at h
    split at h
    · obtain rfl := Except.ok.inj h
      rfl
    · obtain rfl := Except.ok.inj h
      rfl
    · simp at h
  · rintro rfl
    exact PluginKind.ofName_name kind

/-- Plugins are found if all of the names are names of plugins. -/
theorem mapM_ofName_eq_ok_iff :
    names.mapM PluginKind.ofName = .ok kinds ↔ names = kinds.map PluginKind.name := by
  induction names generalizing kinds with
  | nil =>
      rw [List.mapM_nil, except_pure_eq_ok, eq_comm, eq_comm (a := []), List.map_eq_nil_iff]
  | cons name names ih =>
      rw [List.mapM_cons]
      constructor
      · intro h
        obtain ⟨kind, hkind, h⟩ := except_bind_eq_ok.1 h
        obtain ⟨rest, hrest, h⟩ := except_bind_eq_ok.1 h
        obtain rfl := except_pure_eq_ok.1 h
        rw [List.map_cons, ← ih.1 hrest, ← ofName_eq_ok_iff.1 hkind]
      · intro h
        obtain ⟨kind, rest, rfl, hname, hrest⟩ := List.map_eq_cons_iff.1 h.symm
        refine except_bind_eq_ok.2 ⟨kind, ofName_eq_ok_iff.2 hname.symm, ?_⟩
        exact except_bind_eq_ok.2 ⟨rest, ih.2 hrest.symm, rfl⟩

theorem offer_cons_of_configure {p : Plugin} {ps : List Plugin} {key value : String}
    {taken : Option Plugin} (h : p.configure key value = .ok taken) :
    offer key value (p :: ps) = (offer key value ps).map fun (ps, others) =>
      (taken.getD p :: ps, taken.isSome || others) := by
  rw [offer, h]
  cases offer key value ps <;> rfl

/-- No plugin takes an option with another key. -/
theorem offer_of_ne {key : String} (hkey : key ≠ "keep") (value : String) (ps : List Plugin) :
    offer key value ps = .ok (ps, false) := by
  induction ps with
  | nil => rfl
  | cons p ps ih =>
      have hnone : p.configure key value = .ok none := by
        cases p with
        | dropSpecs keep => exact if_pos hkey
        | dedupConstraints => rfl
      rw [offer_cons_of_configure hnone, ih]
      rfl

/-- A pattern is taken by all plugins that drop specifications. -/
theorem offer_keep {value : String} (hvalue : value ≠ "") (keep : List String)
    (kinds : List PluginKind) :
    offer "keep" value (kinds.map (withPatterns keep)) =
      .ok (kinds.map (withPatterns (keep ++ [value])), decide (.dropSpecs ∈ kinds)) := by
  induction kinds with
  | nil => rfl
  | cons kind kinds ih =>
      rw [List.map_cons]
      cases kind with
      | dropSpecs =>
          have htaken : (withPatterns keep .dropSpecs).configure "keep" value =
              .ok (some (.dropSpecs (keep ++ [value]))) := by
            simp [withPatterns, configure, hvalue]
          rw [offer_cons_of_configure htaken, ih]
          simp [Except.map, withPatterns]
      | dedupConstraints =>
          have hnone : (withPatterns keep .dedupConstraints).configure "keep" value = .ok none := rfl
          rw [offer_cons_of_configure hnone, ih]
          simp [Except.map, withPatterns]

/-- An empty pattern is refused by the first of these plugins. -/
theorem offer_keep_empty (keep : List String) (kinds : List PluginKind) :
    offer "keep" "" (kinds.map (withPatterns keep)) =
      if .dropSpecs ∈ kinds then .error (.invalidOption PluginKind.dropSpecs.name "keep=")
      else .ok (kinds.map (withPatterns keep), false) := by
  induction kinds with
  | nil => rfl
  | cons kind kinds ih =>
      rw [List.map_cons]
      cases kind with
      | dropSpecs =>
          have hrefused : (withPatterns keep .dropSpecs).configure "keep" "" =
              .error (.invalidOption PluginKind.dropSpecs.name "keep=") := rfl
          rw [offer, hrefused, if_pos List.mem_cons_self]
          rfl
      | dedupConstraints =>
          have hnone : (withPatterns keep .dedupConstraints).configure "keep" "" = .ok none := rfl
          rw [offer_cons_of_configure hnone, ih]
          by_cases hmem : PluginKind.dropSpecs ∈ kinds
          · simp [hmem, Except.map]
          · simp [hmem, Except.map, withPatterns]

/-- The patterns after one more option. It has to be taken, by a plugin that drops specifications. -/
def takePattern (taking : Bool) (keep : List String) (option : String) :
    Except CombineError (List String) :=
  match parseOption option with
  | .error e => .error e
  | .ok (key, value) =>
    if taking && key = "keep" then
      if value = "" then .error (.invalidOption PluginKind.dropSpecs.name "keep=")
      else .ok (keep ++ [value])
    else .error (.unknownOption option)

theorem setOptions_cons (ps : List Plugin) (option : String) (options : List String) :
    setOptions ps (option :: options) =
      setOptions ps [option] >>= fun ps => setOptions ps options := by
  rw [setOptions, setOptions]
  cases parseOption option with
  | error e => rfl
  | ok setting =>
      change (offer setting.1 setting.2 ps >>= _) = (offer setting.1 setting.2 ps >>= _) >>= _
      cases offer setting.1 setting.2 ps with
      | error e => rfl
      | ok offered =>
          obtain ⟨ps', taken⟩ := offered
          cases taken <;> rfl

theorem setOptions_single (keep : List String) (kinds : List PluginKind) (option : String) :
    setOptions (kinds.map (withPatterns keep)) [option] =
      (takePattern (decide (.dropSpecs ∈ kinds)) keep option).map fun keep =>
        kinds.map (withPatterns keep) := by
  rw [setOptions, takePattern]
  cases parseOption option with
  | error e => rfl
  | ok setting =>
      obtain ⟨key, value⟩ := setting
      change (offer key value (kinds.map (withPatterns keep)) >>= _) = _
      by_cases hkey : key = "keep"
      · subst hkey
        by_cases hvalue : value = ""
        · subst hvalue
          rw [offer_keep_empty]
          by_cases hmem : PluginKind.dropSpecs ∈ kinds
          · rw [if_pos hmem, decide_eq_true hmem]
            rfl
          · rw [if_neg hmem, decide_eq_false hmem]
            rfl
        · rw [offer_keep hvalue]
          by_cases hmem : PluginKind.dropSpecs ∈ kinds
          · rw [decide_eq_true hmem]
            simp only [hvalue]
            rfl
          · rw [decide_eq_false hmem]
            rfl
      · rw [offer_of_ne hkey]
        simp only [hkey, decide_false, Bool.and_false]
        rfl

/-- Whether options are taken, and which patterns they set, depends only on whether there is a
plugin that drops specifications. -/
theorem setOptions_withPatterns (keep : List String) (kinds : List PluginKind)
    (options : List String) :
    setOptions (kinds.map (withPatterns keep)) options =
      (options.foldlM (takePattern (decide (.dropSpecs ∈ kinds))) keep).map fun keep =>
        kinds.map (withPatterns keep) := by
  induction options generalizing keep with
  | nil => rfl
  | cons option options ih =>
      rw [setOptions_cons, setOptions_single, List.foldlM_cons]
      cases takePattern (decide (.dropSpecs ∈ kinds)) keep option with
      | error e => rfl
      | ok keep => exact ih keep

/-- A selection has the plugins of its names, all with the patterns that the options set. -/
theorem select_eq_ok_iff {ps : List Plugin} :
    select names options = .ok ps ↔ ∃ (kinds : List PluginKind) (keep : List String),
      names = kinds.map PluginKind.name ∧
        options.foldlM (takePattern (decide (.dropSpecs ∈ kinds))) [] = .ok keep ∧
          ps = kinds.map (withPatterns keep) := by
  have hfresh : ofKind = withPatterns [] := by
    funext kind
    cases kind <;> rfl
  unfold select
  rw [hfresh, except_bind_eq_ok]
  constructor
  · rintro ⟨kinds, hkinds, hset⟩
    rw [setOptions_withPatterns] at hset
    cases hkeep : options.foldlM (takePattern (decide (.dropSpecs ∈ kinds))) [] with
    | error e => simp [hkeep, Except.map] at hset
    | ok keep =>
        rw [hkeep] at hset
        exact ⟨kinds, keep, mapM_ofName_eq_ok_iff.1 hkinds, hkeep, (Except.ok.inj hset).symm⟩
  · rintro ⟨kinds, keep, hnames, hkeep, rfl⟩
    refine ⟨kinds, mapM_ofName_eq_ok_iff.2 hnames, ?_⟩
    rw [setOptions_withPatterns, hkeep]
    rfl

/-- All names of a selection are names of plugins. -/
theorem exists_name_of_select {ps : List Plugin} (h : select names options = .ok ps) :
    ∀ n ∈ names, ∃ kind : PluginKind, kind.name = n := by
  obtain ⟨kinds, -, rfl, -⟩ := select_eq_ok_iff.1 h
  intro n hn
  obtain ⟨kind, -, hkind⟩ := List.mem_map.1 hn
  exact ⟨kind, hkind⟩

theorem exists_map_name_eq (h : ∀ n ∈ names, ∃ kind : PluginKind, kind.name = n) :
    ∃ kinds : List PluginKind, kinds.map PluginKind.name = names := by
  induction names with
  | nil => exact ⟨[], rfl⟩
  | cons name names ih =>
      obtain ⟨⟨kind, hkind⟩, hrest⟩ := List.forall_mem_cons.1 h
      obtain ⟨kinds, hkinds⟩ := ih hrest
      exact ⟨kind :: kinds, by rw [List.map_cons, hkind, hkinds]⟩

theorem name_injective : Function.Injective PluginKind.name := by
  intro kind kind' h
  have hread := PluginKind.ofName_name kind
  rw [h, PluginKind.ofName_name] at hread
  exact (Except.ok.inj hread).symm

/-- With the same names, selections succeed together, and their plugins leave the same of every
model. -/
theorem exists_select_of_names {ps : List Plugin} (hnames : ∀ n, n ∈ names ↔ n ∈ names')
    (h : select names options = .ok ps) :
    ∃ ps', select names' options = .ok ps' ∧
      ∀ model, (applyPlugins ps' model).1 = (applyPlugins ps model).1 := by
  obtain ⟨kinds, keep, rfl, hkeep, rfl⟩ := select_eq_ok_iff.1 h
  obtain ⟨kinds', rfl⟩ := exists_map_name_eq fun n hn => exists_name_of_select h n ((hnames n).2 hn)
  have hkinds : ∀ k, k ∈ kinds' ↔ k ∈ kinds := by
    intro k
    rw [← List.mem_map_of_injective name_injective, ← hnames,
      List.mem_map_of_injective name_injective]
  refine ⟨kinds'.map (withPatterns keep), select_eq_ok_iff.2 ⟨kinds', keep, rfl, ?_, rfl⟩, ?_⟩
  · rw [decide_eq_decide.2 (hkinds .dropSpecs)]
    exact hkeep
  · intro model
    rw [applyPlugins_withPatterns, applyPlugins_withPatterns, rewriteAll_congr hkinds]

end Options

end Plugin

/-! ## Combinations -/

section Combine

variable {names names' : List String}

/-- What an action gives, if it does not fail. -/
theorem toOption_outcome_eq_some_iff {ε α : Type} {act : Logged ε α} {a : α} :
    act.outcome.1.toOption = some a ↔ ∃ log, Ends act [] (.ok a) log := by
  unfold Logged.outcome Ends
  cases act [] <;> simp [Except.toOption]

theorem ends_combine_of_names (hnames : ∀ n, n ∈ names ↔ n ∈ names') {sources options : List String}
    {declarations : List String} {context : Context} {log : Log} {result : String × Context}
    (h : ∃ log', Ends (combine sources ⟨names, options, declarations⟩ context) log (.ok result)
      log') :
    ∃ log', Ends (combine sources ⟨names', options, declarations⟩ context) log (.ok result)
      log' := by
  obtain ⟨ps, m, hselect, hmerged, rfl⟩ := ends_combine_ok_iff.1 h
  obtain ⟨ps', hselect', hsame⟩ := Plugin.exists_select_of_names hnames hselect
  rw [← hsame]
  exact ends_combine_ok_iff.2 ⟨ps', m, hselect', hmerged, rfl⟩

/-- A selection of plugins is a set. Combinations that differ in the order and the repetitions of
the names both fail, or both give the same text and the same context. -/
theorem combine_congr_plugins (hnames : ∀ n, n ∈ names ↔ n ∈ names')
    (sources options declarations : List String) (context : Context) :
    (combine sources ⟨names, options, declarations⟩ context).outcome.1.toOption =
      (combine sources ⟨names', options, declarations⟩ context).outcome.1.toOption := by
  apply Option.ext
  intro result
  rw [toOption_outcome_eq_some_iff, toOption_outcome_eq_some_iff]
  constructor
  · exact ends_combine_of_names hnames
  · exact ends_combine_of_names fun n => (hnames n).symm

/-- Both plugins have something to drop, and each of them comes first once. -/
theorem combine_congr_plugins_repeated :
    (∀ n, n ∈ ["DedupConstraints", "DropSpecs", "DedupConstraints"] ↔
        n ∈ ["DropSpecs", "DedupConstraints"]) ∧
      (combine ["SPEC EF x\nINIT x\nLTLSPEC G x\n", "INIT  x\nINVAR x\n"]
          ⟨["DedupConstraints", "DropSpecs", "DedupConstraints"], ["keep = G x"], ["x : boolean"]⟩
          .empty).outcome.1.toOption =
        some ("MODULE main\nVAR\n    x : boolean;\nINIT x\nINVAR x\nLTLSPEC G x\n",
          ⟨[("x", "boolean")], [], []⟩) := by
  have hnames : ∀ n, n ∈ ["DedupConstraints", "DropSpecs", "DedupConstraints"] ↔
      n ∈ ["DropSpecs", "DedupConstraints"] := by
    intro n
    simp only [List.mem_cons, List.not_mem_nil, or_false]
    tauto
  refine ⟨hnames, ?_⟩
  rw [combine_congr_plugins hnames]
  decide +kernel

end Combine

end Punctual
