import Punctual.Proofs.Keyed
import Punctual.Proofs.Model.Precedence

/-!
# What a merge keeps

A merge loses nothing that its fragments hold and doubles none of it. Every variable is declared
once, with the kind and the type of its first declaration; the context and the model tell the same
declarations, in the same order. All other sections are taken over as they are, and of the modules
under one name the first (`mergeFragments_conserves`).
-/

namespace Punctual

/-! ## Declarations and the contexts they lead to -/

/-- The kinds of variables. -/
inductive VariableKind
  | state
  | frozen
  | input
  deriving DecidableEq, Repr

namespace VariableKind

/-- All kinds, in the order in which a context looks a variable up. -/
def all : List VariableKind :=
  [.state, .frozen, .input]

/-- The kind of section that declares variables of the kind. -/
def sectionKind : VariableKind → SectionKind
  | .state => .var
  | .frozen => .frozenVar
  | .input => .ivar

theorem isDeclaration_sectionKind (kind : VariableKind) : kind.sectionKind.isDeclaration := by
  cases kind <;> rfl

end VariableKind

/-- The kind of variables that sections of a kind declare. -/
def SectionKind.variableKind? : SectionKind → Option VariableKind
  | .var => some .state
  | .frozenVar => some .frozen
  | .ivar => some .input
  | _ => none

theorem SectionKind.exists_variableKind {kind : SectionKind} (h : kind.isDeclaration) :
    ∃ k : VariableKind, kind.variableKind? = some k ∧ kind = k.sectionKind := by
  cases kind with
  | var => exact ⟨.state, rfl, rfl⟩
  | frozenVar => exact ⟨.frozen, rfl, rfl⟩
  | ivar => exact ⟨.input, rfl, rfl⟩
  | _ => simp [isDeclaration] at h

theorem SectionKind.variableKind?_eq_none {kind : SectionKind} (h : kind.isDeclaration = false) :
    kind.variableKind? = none := by
  cases kind <;> first | rfl | simp [isDeclaration] at h

/-- A declaration that was read: a variable with its kind and its type. -/
structure Declared where
  kind : VariableKind
  name : String
  type : String
  deriving DecidableEq, Repr

namespace Declared

/-- The entry of a context. -/
def entry (d : Declared) : String × String :=
  (d.name, d.type)

/-- The section of a merged model. -/
def shown (d : Declared) : Section :=
  Merge.declarationSection d.kind.sectionKind d.name d.type

end Declared

namespace Context

/-- The variables of one kind. -/
def table (c : Context) : VariableKind → Types
  | .state => c.vars
  | .frozen => c.frozenVars
  | .input => c.ivars

/-- Everything that a context holds under a name. -/
def held (c : Context) (name : String) : List Declared :=
  VariableKind.all.flatMap fun kind =>
    ((c.table kind).filter (·.1 = name)).map fun e => ⟨kind, e.1, e.2⟩

/-- The context after one declaration: a variable that is declared already stays as it is. -/
def declare (c : Context) (d : Declared) : Context :=
  if c.isDeclared d.name then c else c.add d.kind.sectionKind d.name d.type

/-- The context after some declarations. -/
def after (c : Context) (ds : List Declared) : Context :=
  ds.foldl declare c

/-- The first declaration of each variable that a context does not hold. -/
def fresh (c : Context) (ds : List Declared) : List Declared :=
  firstOfEach Declared.name (ds.filter fun d => !c.isDeclared d.name)

theorem after_concat (c : Context) (ds : List Declared) (d : Declared) :
    c.after (ds ++ [d]) = (c.after ds).declare d :=
  List.foldl_concat _ _ _ _

theorem after_append (c : Context) (ds es : List Declared) :
    (c.after ds).after es = c.after (ds ++ es) :=
  List.foldl_append.symm

/-! ### Tables -/

theorem find?_eq_none_iff {name : String} {entries : Types} :
    Punctual.find? name entries = none ↔ entries.filter (·.1 = name) = [] := by
  induction entries with
  | nil => simp [Punctual.find?]
  | cons e entries ih =>
      obtain ⟨n, type⟩ := e
      by_cases hn : n = name
      · simp [Punctual.find?, hn]
      · simpa [Punctual.find?, hn] using ih

/-- A variable that a table does not hold is added at its end. -/
theorem upsert_of_not_held {name type : String} {entries : Types}
    (h : entries.filter (·.1 = name) = []) :
    upsert name type entries = entries ++ [(name, type)] := by
  refine upsert_of_not_mem (fun hmem => ?_) type
  obtain ⟨e, he, hname⟩ := List.mem_map.1 hmem
  simpa [hname] using List.filter_eq_nil_iff.1 h e he

/-- A context declares what one of its tables holds. -/
theorem isDeclared_eq_false_iff {c : Context} {name : String} :
    c.isDeclared name = false ↔ ∀ kind, (c.table kind).filter (·.1 = name) = [] := by
  rw [isDeclared, Option.isSome_eq_false_iff, Option.isNone_iff_eq_none, typeOf?,
    Option.or_eq_none_iff, Option.or_eq_none_iff]
  simp only [find?_eq_none_iff]
  constructor
  · rintro ⟨hvars, hfrozen, hinputs⟩ kind
    cases kind with
    | state => exact hvars
    | frozen => exact hfrozen
    | input => exact hinputs
  · exact fun h => ⟨h .state, h .frozen, h .input⟩

theorem table_add (c : Context) (d : Declared) (kind : VariableKind) :
    (c.add d.kind.sectionKind d.name d.type).table kind =
      if d.kind = kind then upsert d.name d.type (c.table kind) else c.table kind := by
  cases hkind : d.kind <;> cases kind <;> rfl

/-- A declaration adds its variable to the table of its kind, unless some table holds it. -/
theorem table_declare (c : Context) (d : Declared) (kind : VariableKind) :
    (c.declare d).table kind =
      c.table kind ++ if c.isDeclared d.name ∨ d.kind ≠ kind then [] else [d.entry] := by
  unfold declare
  by_cases hheld : c.isDeclared d.name
  · simp [hheld]
  · have hnone := isDeclared_eq_false_iff.1 (Bool.eq_false_iff.2 hheld) kind
    rw [if_neg hheld, table_add]
    by_cases hkind : d.kind = kind
    · rw [if_pos hkind, upsert_of_not_held hnone]
      simp [hheld, hkind, Declared.entry]
    · simp [hkind]

theorem isDeclared_add_self (c : Context) (kind : SectionKind) (name type : String) :
    (c.add kind name type).isDeclared name := by
  unfold isDeclared typeOf? add
  split <;> simp

theorem isDeclared_declare (c : Context) (d : Declared) (name : String) :
    (c.declare d).isDeclared name = (c.isDeclared name || d.name = name) := by
  unfold declare
  by_cases hname : d.name = name
  · subst hname
    by_cases hheld : c.isDeclared d.name
    · simp [hheld]
    · rw [if_neg hheld, isDeclared_add_self]
      simp
  · have hother : (c.add d.kind.sectionKind d.name d.type).isDeclared name =
        c.isDeclared name := by
      rw [isDeclared, typeOf?_add_of_ne _ _ (Ne.symm hname), isDeclared]
    split
    · simp [hname]
    · simp [hname, hother]

theorem isDeclared_after (c : Context) (ds : List Declared) (name : String) :
    (c.after ds).isDeclared name = (c.isDeclared name || ds.any (·.name = name)) := by
  induction ds using List.reverseRecOn with
  | nil => simp [after]
  | append_singleton ds d ih =>
      rw [after_concat, isDeclared_declare, ih, List.any_append]
      simp [Bool.or_assoc]

/-! ### The variables that are new -/

/-- One more declaration is new unless the context or an earlier declaration holds its variable. -/
theorem fresh_concat (c : Context) (ds : List Declared) (d : Declared) :
    c.fresh (ds ++ [d]) =
      c.fresh ds ++ if (c.after ds).isDeclared d.name then [] else [d] := by
  rw [isDeclared_after, fresh, List.filter_append]
  by_cases hheld : c.isDeclared d.name
  · simp [hheld, fresh]
  · have hany : (ds.filter fun e => !c.isDeclared e.name).any (·.name = d.name) =
        ds.any (·.name = d.name) := by
      rw [List.any_filter]
      refine List.any_congr rfl fun e => ?_
      by_cases he : e.name = d.name
      · simp [he, hheld]
      · simp [he]
    have hone : [d].filter (fun e => !c.isDeclared e.name) = [d] := by simp [hheld]
    rw [hone, firstOfEach_concat, hany]
    by_cases hbefore : ds.any (·.name = d.name) <;> simp [hheld, hbefore, fresh]

/-- A context becomes itself and what is new, each variable in the table of its kind. -/
theorem table_after (c : Context) (ds : List Declared) (kind : VariableKind) :
    (c.after ds).table kind =
      c.table kind ++ ((c.fresh ds).filter (·.kind = kind)).map Declared.entry := by
  induction ds using List.reverseRecOn with
  | nil => simp [after, fresh, firstOfEach]
  | append_singleton ds d ih =>
      rw [after_concat, table_declare, ih, fresh_concat, List.append_assoc, List.filter_append,
        List.map_append]
      by_cases hheld : (c.after ds).isDeclared d.name
      · simp [hheld]
      · by_cases hkind : d.kind = kind <;> simp [hheld, hkind]

/-- What is new under a name is its first declaration, unless the context holds it. -/
theorem filter_fresh (c : Context) (ds : List Declared) (name : String) :
    (c.fresh ds).filter (·.name = name) =
      if c.isDeclared name then [] else (ds.find? (·.name = name)).toList := by
  rw [fresh, filter_firstOfEach, List.find?_filter]
  by_cases hheld : c.isDeclared name
  · have hnone : ds.find? (fun d => !c.isDeclared d.name && decide (d.name = name)) = none := by
      refine List.find?_eq_none.2 fun d _ => ?_
      by_cases hd : d.name = name <;> simp [hd, hheld]
    simp [hheld, hnone]
  · have hsame : (fun d : Declared => !c.isDeclared d.name && decide (d.name = name)) =
        fun d => decide (d.name = name) := by
      funext d
      by_cases hd : d.name = name <;> simp [hd, hheld]
    simp [hheld, hsame]

/-- A context holds what it held under a name, or else the first declaration of it and nothing
more. -/
theorem held_after (c : Context) (ds : List Declared) (name : String) :
    (c.after ds).held name =
      if c.isDeclared name then c.held name else (ds.find? (·.name = name)).toList := by
  have hentries (kind : VariableKind) : ((c.after ds).table kind).filter (·.1 = name) =
      (c.table kind).filter (·.1 = name) ++
        (((c.fresh ds).filter (·.name = name)).filter (·.kind = kind)).map Declared.entry := by
    rw [table_after, List.filter_append, List.filter_map, List.filter_comm]
    rfl
  by_cases hheld : c.isDeclared name
  · have hnone : (c.fresh ds).filter (·.name = name) = [] := by
      rw [filter_fresh, if_pos hheld]
    rw [if_pos hheld, held, held]
    simp only [hentries, hnone, List.filter_nil, List.map_nil, List.append_nil]
  · have hnone := isDeclared_eq_false_iff.1 (Bool.eq_false_iff.2 hheld)
    rw [if_neg hheld, held]
    simp only [hentries, hnone, filter_fresh, if_neg hheld, List.nil_append]
    cases hfound : ds.find? (·.name = name) with
    | none => simp
    | some d =>
        -- the one declaration stands in the table of its kind
        have hd : d.name = name := by simpa using List.find?_some hfound
        subst hd
        obtain ⟨kind, dname, type⟩ := d
        cases kind <;> simp [VariableKind.all, Declared.entry]

/-- In a context that declarations led to, a variable is held once, as its first declaration says. -/
theorem held_after_empty (ds : List Declared) (name : String) :
    (empty.after ds).held name = (ds.find? (·.name = name)).toList := by
  have hnew : empty.isDeclared name = false := rfl
  rw [held_after, hnew, if_neg (by simp)]

theorem find?_eq_head? (name : String) (entries : Types) :
    Punctual.find? name entries = ((entries.filter (·.1 = name)).map Prod.snd).head? := by
  induction entries with
  | nil => rfl
  | cons e entries ih =>
      obtain ⟨n, type⟩ := e
      by_cases hn : n = name
      · simp [Punctual.find?, hn]
      · simpa [Punctual.find?, hn] using ih

/-- The type of a variable is that of the first entry under its name. -/
theorem typeOf?_eq_held (c : Context) (name : String) :
    c.typeOf? name = (c.held name).head?.map Declared.type := by
  have htypes : (c.held name).map Declared.type = VariableKind.all.flatMap fun kind =>
      ((c.table kind).filter (·.1 = name)).map Prod.snd := by
    rw [held, List.map_flatMap]
    simp only [List.map_map]
    rfl
  rw [← List.head?_map, htypes, typeOf?]
  simp only [find?_eq_head?, VariableKind.all, List.flatMap_cons, List.flatMap_nil, List.append_nil,
    List.head?_append]
  rfl

end Context

/-! ## What fragments declare -/

/-- What a declaration text declares, if it can be read. -/
def readDeclared? (kind : VariableKind) (text : String) : Option Declared :=
  (parseDeclaration text).toOption.map fun entry => ⟨kind, entry.1, entry.2⟩

/-- The declarations of a section, in order. -/
def Section.declared (s : Section) : List Declared :=
  match s.kind.variableKind? with
  | some kind => s.declarations.filterMap (readDeclared? kind)
  | none => []

/-- The declarations of fragments, in order of fragment and line. -/
def Fragment.declaredIn (fs : List Fragment) : List Declared :=
  fs.flatMap fun f => f.sections.flatMap Section.declared

/-- The section declares no variables. -/
def Section.isOther (s : Section) : Bool :=
  !s.kind.isDeclaration

open Fragment

/-! ## One step of a merge -/

variable {m m' : Merge} {context : Context} {ds : List Declared} {others : List Section}
  {modules : List (String × String)}

/-- A merge that began with a context has taken some declarations, other sections and modules. -/
structure Merge.Gathers (context : Context) (ds : List Declared) (others : List Section)
    (modules : List (String × String)) (m : Merge) : Prop where
  declared : m.context = context.after ds
  declarations : m.model.sections.filter (·.kind.isDeclaration) =
    (context.fresh ds).map Declared.shown
  others : m.model.sections.filter Section.isOther = others
  modules : m.model.modules = firstOfEach Prod.fst modules

theorem Merge.gathers_start (context : Context) :
    (Merge.start context).Gathers context [] [] [] :=
  ⟨rfl, rfl, rfl, rfl⟩

theorem context_declare (m : Merge) (d : Declared) :
    (m.declare d.kind.sectionKind d.name d.type).context = m.context.declare d := by
  unfold Merge.declare Context.declare Context.isDeclared
  cases m.context.typeOf? d.name with
  | some kept => rfl
  | none => rfl

/-- A declaration adds its section, unless the context holds its variable. -/
theorem sections_declare (m : Merge) (d : Declared) :
    (m.declare d.kind.sectionKind d.name d.type).model.sections =
      m.model.sections ++ if m.context.isDeclared d.name then [] else [d.shown] := by
  unfold Merge.declare Context.isDeclared
  cases m.context.typeOf? d.name with
  | some kept => simp
  | none => rfl

theorem Merge.Gathers.declare (hm : m.Gathers context ds others modules) (d : Declared) :
    (m.declare d.kind.sectionKind d.name d.type).Gathers context (ds ++ [d]) others modules := by
  have hdeclares : d.shown.kind.isDeclaration := d.kind.isDeclaration_sectionKind
  have hother : d.shown.isOther = false := by simp [Section.isOther, hdeclares]
  refine ⟨?_, ?_, ?_, ?_⟩
  · rw [context_declare, hm.declared, Context.after_concat]
  · rw [sections_declare, List.filter_append, hm.declarations, Context.fresh_concat, hm.declared,
      List.map_append]
    split
    · rfl
    · simp [hdeclares]
  · rw [sections_declare, List.filter_append, hm.others]
    split
    · exact List.append_nil others
    · simp [hother]
  · rw [modules_declare, hm.modules]

theorem Merge.Gathers.mergeDeclaration {kind : VariableKind} {text : String}
    (hm : m.Gathers context ds others modules)
    (h : Ends (mergeDeclaration kind.sectionKind text) m (.ok ⟨⟩) m') :
    m'.Gathers context (ds ++ (readDeclared? kind text).toList) others modules := by
  unfold Punctual.mergeDeclaration at h
  cases hparse : parseDeclaration text with
  | error e =>
      rw [hparse] at h
      exact absurd (ends_throw.1 h).1 (by simp)
  | ok entry =>
      rw [hparse] at h
      have hread : readDeclared? kind text = some ⟨kind, entry.1, entry.2⟩ := by
        rw [readDeclared?, hparse]
        rfl
      rw [hread, (ends_modify.1 h).2]
      exact hm.declare ⟨kind, entry.1, entry.2⟩

theorem Merge.Gathers.addSection {s : Section} (hm : m.Gathers context ds others modules)
    (hs : s.isOther) :
    Merge.Gathers context ds (others ++ [s]) modules { m with model := m.model.addSection s } := by
  have hdeclares : s.kind.isDeclaration = false := by simpa [Section.isOther] using hs
  refine ⟨hm.declared, ?_, ?_, hm.modules⟩
  · rw [Model.addSection, List.filter_append, hm.declarations]
    simp [hdeclares]
  · rw [Model.addSection, List.filter_append, hm.others]
    simp [hs]

/-- A section adds its declarations, or itself. -/
theorem Merge.Gathers.mergeSection {s : Section} (hm : m.Gathers context ds others modules)
    (h : Ends (mergeSection s) m (.ok ⟨⟩) m') :
    m'.Gathers context (ds ++ s.declared) (others ++ [s].filter Section.isOther) modules := by
  unfold Punctual.mergeSection at h
  by_cases hkind : s.kind.isDeclaration
  · obtain ⟨kind, hread, hsame⟩ := SectionKind.exists_variableKind hkind
    have hother : [s].filter Section.isOther = [] := by simp [Section.isOther, hkind]
    have hdeclared : s.declared = s.declarations.filterMap (readDeclared? kind) := by
      unfold Section.declared
      rw [hread]
    rw [if_pos hkind, hsame] at h
    rw [hdeclared, hother, List.append_nil]
    refine forM_builds
      (P := fun done => Merge.Gathers context (ds ++ done.filterMap (readDeclared? kind)) others
        modules) h (by simpa using hm) ?_
    intro done text _ m m' hdone hends
    have hone : [text].filterMap (readDeclared? kind) = (readDeclared? kind text).toList := by
      cases hread : readDeclared? kind text <;> simp [hread]
    rw [List.filterMap_append, ← List.append_assoc, hone]
    exact hdone.mergeDeclaration hends
  · have hnone := SectionKind.variableKind?_eq_none (Bool.eq_false_iff.2 hkind)
    have hdeclared : s.declared = [] := by
      unfold Section.declared
      rw [hnone]
    have hother : s.isOther := by simp [Section.isOther, hkind]
    rw [if_neg hkind] at h
    rw [hdeclared, List.append_nil, (ends_modify.1 h).2, List.filter_cons_of_pos hother]
    exact hm.addSection hother

/-- A module is added unless there is one of its name. -/
theorem find?_firstOfEach_isSome (name : String) (modules : List (String × String)) :
    (find? name (firstOfEach Prod.fst modules)).isSome = modules.any (·.1 = name) := by
  rw [Bool.eq_iff_iff, ← not_iff_not, Bool.not_eq_true, Option.isSome_eq_false_iff,
    Option.isNone_iff_eq_none, Context.find?_eq_none_iff, filter_firstOfEach,
    Option.toList_eq_nil_iff, List.find?_eq_none, Bool.not_eq_true, List.any_eq_false]

theorem Merge.Gathers.addModule (hm : m.Gathers context ds others modules)
    (entry : String × String) :
    Merge.Gathers context ds others (modules ++ [entry])
      { m with model := m.model.addModule entry } := by
  unfold Model.addModule
  rw [hm.modules, find?_firstOfEach_isSome]
  have hmodules : firstOfEach Prod.fst (modules ++ [entry]) = _ :=
    firstOfEach_concat modules entry
  split
  · next hbefore =>
      rw [if_pos hbefore] at hmodules
      exact ⟨hm.declared, hm.declarations, hm.others, hm.modules.trans hmodules.symm⟩
  · next hnew =>
      rw [if_neg hnew] at hmodules
      refine ⟨hm.declared, hm.declarations, hm.others, ?_⟩
      rw [hmodules]

theorem Merge.Gathers.addModules (hm : m.Gathers context ds others modules)
    (entries : List (String × String)) :
    Merge.Gathers context ds others (modules ++ entries)
      { m with model := entries.foldl Model.addModule m.model } := by
  induction entries generalizing m modules with
  | nil => simpa using hm
  | cons entry entries ih =>
      rw [List.append_cons]
      exact ih (hm.addModule entry)

theorem Merge.Gathers.mergeFragment {f : Fragment} (hm : m.Gathers context ds others modules)
    (h : Ends (mergeFragment f) m (.ok ⟨⟩) m') :
    m'.Gathers context (ds ++ f.sections.flatMap Section.declared)
      (others ++ f.sections.filter Section.isOther) (modules ++ f.modules) := by
  obtain ⟨⟨⟩, m₁, hsections, hmodules⟩ := ends_bind_ok.1 h
  rw [(ends_modify.1 hmodules).2]
  apply Merge.Gathers.addModules
  refine forM_builds
    (P := fun done => Merge.Gathers context (ds ++ done.flatMap Section.declared)
      (others ++ done.filter Section.isOther) modules) hsections (by simpa using hm) ?_
  intro done s _ m m' hdone hends
  rw [List.flatMap_append, List.filter_append, ← List.append_assoc, ← List.append_assoc]
  simpa using hdone.mergeSection hends

/-- Fragments that are merged one after the other add up what each of them holds. -/
theorem gathers_of_mergeFragments {fs : List Fragment}
    (h : Ends (mergeFragments fs) (.start context) (.ok ⟨⟩) m) :
    m.Gathers context (declaredIn fs)
      ((fs.flatMap Fragment.sections).filter Section.isOther) (fs.flatMap Fragment.modules) := by
  refine forM_builds
    (P := fun done => Merge.Gathers context (declaredIn done)
      ((done.flatMap Fragment.sections).filter Section.isOther) (done.flatMap Fragment.modules))
    h (Merge.gathers_start context) ?_
  intro done f _ m m' hdone hends
  have hmore := hdone.mergeFragment hends
  simpa [declaredIn] using hmore

/-- Fragments can only be merged if all their declarations can be read. -/
theorem parses_of_mergeFragments {fs : List Fragment} {s : Section} {text : String}
    (h : Ends (mergeFragments fs) (.start context) (.ok ⟨⟩) m)
    (hs : s ∈ fs.flatMap Fragment.sections) (hkind : s.kind.isDeclaration)
    (htext : text ∈ s.declarations) : ∃ entry, parseDeclaration text = .ok entry := by
  obtain ⟨f, hf, hsf⟩ := List.mem_flatMap.1 hs
  obtain ⟨m₁, m₂, hfragment⟩ := forM_each h f hf
  obtain ⟨⟨⟩, m₃, hsections, -⟩ := ends_bind_ok.1 hfragment
  obtain ⟨m₄, m₅, hsection⟩ := forM_each hsections s hsf
  unfold mergeSection at hsection
  rw [if_pos hkind] at hsection
  obtain ⟨m₆, m₇, hdeclaration⟩ := forM_each hsection text htext
  unfold mergeDeclaration at hdeclaration
  cases hparse : parseDeclaration text with
  | ok entry => exact ⟨entry, rfl⟩
  | error e =>
      rw [hparse] at hdeclaration
      exact absurd (ends_throw.1 hdeclaration).1 (by simp)

/-! ## The first declaration of a variable -/

variable {name type : String}

/-- Among the sections that show variables, those that declare a name show it. -/
theorem filter_declares_shown {ds : List Declared}
    (hds : ∀ d ∈ ds, IsVariableName d.name ∧ IsTypeText d.type) (name : String) :
    (ds.map Declared.shown).filter (Section.declares name) =
      (ds.filter (·.name = name)).map Declared.shown := by
  rw [List.filter_map]
  refine congrArg _ (List.filter_congr fun d hd => ?_)
  obtain ⟨hname, htype⟩ := hds d hd
  rw [Function.comp_apply]
  by_cases heq : d.name = name
  · rw [← heq, decide_eq_true rfl]
    exact Section.declares_declarationSection d.kind.isDeclaration_sectionKind hname htype
  · rw [decide_eq_false heq]
    exact Section.not_declares_declarationSection _ _ hname heq

/-- A merge that began with nothing holds the first declaration of a state variable. -/
theorem Merge.Gathers.holds (hm : m.Gathers .empty ds others modules)
    (hds : ∀ d ∈ ds, IsVariableName d.name ∧ IsTypeText d.type)
    (hfirst : ds.find? (·.name = name) = some ⟨.state, name, type⟩) : m.Holds name type [] := by
  have hfresh : (Context.empty.fresh ds).filter (·.name = name) = [⟨.state, name, type⟩] := by
    have hnew : Context.empty.isDeclared name = false := rfl
    rw [Context.filter_fresh, hnew, if_neg (by simp), hfirst]
    rfl
  have hlegible : ∀ d ∈ Context.empty.fresh ds, IsVariableName d.name ∧ IsTypeText d.type := by
    intro d hd
    exact hds d (List.mem_of_mem_filter (mem_of_mem_firstOfEach hd))
  refine ⟨?_, ?_, by simp⟩
  · rw [hm.declared, Context.typeOf?_eq_held, Context.held_after_empty, hfirst]
    rfl
  · have hdeclarations : m.model.sections.filter (Section.declares name) =
        (m.model.sections.filter (·.kind.isDeclaration)).filter (Section.declares name) := by
      rw [List.filter_filter]
      refine List.filter_congr fun s _ => ?_
      unfold Section.declares
      cases s.kind.isDeclaration <;> simp
    rw [hdeclarations, hm.declarations, filter_declares_shown hlegible, hfresh]
    rfl

/-! ## Whole merges -/

/-- What a merge of fragments that began with a context keeps. -/
structure Merge.Conserves (context : Context) (fs : List Fragment) (m : Merge) : Prop where
  /-- Every declaration of the fragments was read. -/
  readable : ∀ s ∈ fs.flatMap Fragment.sections, s.kind.isDeclaration →
    ∀ text ∈ s.declarations, ∃ entry, parseDeclaration text = .ok entry
  /-- What the context held it still holds, and no name is added twice: one that it did not hold has
  its first declaration in the tables and no other one. -/
  held : ∀ name, m.context.held name =
    if context.isDeclared name then context.held name
    else ((declaredIn fs).find? (·.name = name)).toList
  /-- If the context itself came from declarations, every name stands in one table at most, with
  the kind and the type of the first of all declarations. -/
  first : ∀ given, context = Context.empty.after given → ∀ name,
    m.context.held name = ((given ++ declaredIn fs).find? (·.name = name)).toList
  /-- Each table is the one of the context with the new variables of its kind behind it. -/
  tables : ∀ kind, m.context.table kind = context.table kind ++
    ((context.fresh (declaredIn fs)).filter (·.kind = kind)).map Declared.entry
  /-- The model declares exactly these variables, each in a section of its own. -/
  declarations : m.model.sections.filter (·.kind.isDeclaration) =
    (context.fresh (declaredIn fs)).map Declared.shown
  /-- The other sections are those of the fragments. -/
  others : m.model.sections.filter Section.isOther =
    (fs.flatMap Fragment.sections).filter Section.isOther
  /-- Of the modules under one name the first is kept. -/
  modules : m.model.modules = firstOfEach Prod.fst (fs.flatMap Fragment.modules)

/-- A merge that does not break off declares every variable once, as its first declaration says, in
the context and in the model alike. It keeps all other sections in order and the first module of
each name. -/
theorem mergeFragments_conserves {fs : List Fragment}
    (h : Ends (mergeFragments fs) (.start context) (.ok ⟨⟩) m) : m.Conserves context fs := by
  have hm := gathers_of_mergeFragments h
  constructor
  · intro s hs hkind text htext
    exact parses_of_mergeFragments h hs hkind htext
  · intro name
    rw [hm.declared, Context.held_after]
  · intro given hgiven name
    rw [hm.declared, hgiven, Context.after_append, Context.held_after_empty]
  · intro kind
    rw [hm.declared, Context.table_after]
  · exact hm.declarations
  · exact hm.others
  · exact hm.modules

/-- A level and a pump that are declared again, as variables of other kinds and types. -/
def redeclaring : List Fragment :=
  [parse "MODULE main\nVAR\n  level : 0..7; pump :\n  boolean;\nINIT pump\nMODULE valve\nVAR a : boolean;",
    parse "IVAR level : boolean; demand : 0..3;\nFROZENVAR pump : 0..1;\nINIT pump\nMODULE valve\nVAR b : boolean;"]

theorem mergeFragments_conserves_redeclaring :
    ∃ m, Ends (mergeFragments redeclaring)
        (.start (Context.empty.after [⟨.frozen, "level", "0..9"⟩])) (.ok ⟨⟩) m ∧
      m.Conserves (Context.empty.after [⟨.frozen, "level", "0..9"⟩]) redeclaring ∧
      m.context.held "level" = [⟨.frozen, "level", "0..9"⟩] ∧
      m.context.held "pump" = [⟨.state, "pump", "boolean"⟩] ∧
      m.model.modules = [("valve", "MODULE valve\nVAR a : boolean;")] := by
  obtain ⟨⟨⟩, m, hends, -⟩ := exists_ends_ok_of_endsIn
    (mergeFragments redeclaring) (.start (Context.empty.after [⟨.frozen, "level", "0..9"⟩]))
    (fun _ => true) (by decide +kernel)
  have hconserves := mergeFragments_conserves hends
  refine ⟨m, hends, hconserves, ?_, ?_, ?_⟩
  · rw [hconserves.held]
    decide +kernel
  · rw [hconserves.held]
    decide +kernel
  · rw [hconserves.modules]
    decide +kernel

end Punctual
