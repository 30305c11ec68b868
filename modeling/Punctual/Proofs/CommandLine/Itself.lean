import Punctual.CommandLine.Programs
import Punctual.CommandLine.Transcript
import Punctual.Proofs.Check.TaskModel
import Punctual.Proofs.CommandLine.Accepted
import Punctual.Proofs.Text.Decoding

/-!
# The program as the program that combines models

The configuration may name a program that combines models, and that program may be this one. Then
each file and each option makes its way through a command line, and the model makes its way back
through what is printed. The combined model is the same as without the detour
(`startedBy_itself`), except that words with the character that ends texts for the system cannot be
passed to a program (`not_always_same_by_itself`).
-/

namespace Punctual

open CommandLine

/-! ## Calls without a configuration -/

section Run

variable {σ τ : Type} {tree : Tree} {environment : List (String × String)} {files : List String}
  {options : CombineOptions} {text : String} {solver : σ} {idle : τ} {programs : Programs τ}

/-- Without a file and variables, nothing is configured. -/
theorem Configuration.load_none (h : ∀ v ∈ environment, variableKey? v.1 = none) :
    load tree environment none = .ok empty := by
  have hvariables : ofVariables environment = [] := by
    rw [ofVariables, List.filterMap_eq_nil_iff]
    rintro ⟨name, v⟩ hv
    have hname := h (name, v) hv
    dsimp only at hname ⊢
    rw [hname, Option.map_none]
  unfold load
  rw [hvariables]
  rfl

theorem Configuration.combineOptions_empty (options : CombineOptions) :
    empty.combineOptions options = options := by
  obtain ⟨plugins, settings, declarations⟩ := options
  cases plugins <;> cases settings <;> cases declarations <;> rfl

/-- The built-in combiner does not look at the state of the model checker. -/
theorem builtin_eq (h : (Combiner.builtin files options tree solver).result = .ok text) (idle : τ) :
    Combiner.builtin files options tree idle =
      ⟨.ok text, (Combiner.builtin files options tree solver).reports, tree, idle⟩ := by
  have hresult : (Combiner.combineFiles tree files options).outcome.1 = .ok text := h
  unfold Combiner.builtin
  rw [← hresult]

/-- The call of a combination prints the combined model. -/
theorem ends_combine_call (henvironment : ∀ v ∈ environment, Configuration.variableKey? v.1 = none)
    (h : (Combiner.builtin files options tree solver).result = .ok text) :
    Ends ((Command.combine ⟨files, options, none⟩).run programs environment) ⟨tree, [], idle, []⟩
      (.ok (.printed text))
      ⟨tree, (Combiner.builtin files options tree solver).reports, idle, []⟩ := by
  have hload : Ends (loadConfiguration (σ := τ) environment none) ⟨tree, [], idle, []⟩ (.ok .empty)
      ⟨tree, [], idle, []⟩ := by
    unfold loadConfiguration
    rw [ends_get_bind, Configuration.load_none henvironment]
    rfl
  have hcombined : Ends (CombineCall.combined programs .empty ⟨files, options, none⟩)
      ⟨tree, [], idle, []⟩ (.ok text)
      ⟨tree, (Combiner.builtin files options tree solver).reports, idle, []⟩ := by
    have hcombiner : combinerOf programs .empty = pure Combiner.builtin := rfl
    unfold CombineCall.combined
    rw [hcombiner, pure_bind, Configuration.combineOptions_empty]
    unfold Carry.ofCombine Ends
    simp only [builtin_eq h idle]
    rfl
  exact ends_bind_ok.2 ⟨_, _, hload, ends_bind_ok.2 ⟨_, _, hcombined, ends_pure.2 ⟨rfl, rfl⟩⟩⟩

theorem transcript_combine_call {args : List String}
    (henvironment : ∀ v ∈ environment, Configuration.variableKey? v.1 = none)
    (hparse : Call.parse args = .ok ⟨⟨none, false⟩, .combine ⟨files, options, none⟩⟩)
    (h : (Combiner.builtin files options tree solver).result = .ok text) :
    transcript programs environment args ⟨tree, [], idle, []⟩ =
      ⟨text, logLines (Combiner.builtin files options tree solver).reports, 0, tree⟩ := by
  have hends : (Command.combine ⟨files, options, none⟩).run programs environment
      ⟨tree, [], idle, []⟩ = .ok (.printed text)
        ⟨tree, (Combiner.builtin files options tree solver).reports, idle, []⟩ :=
    ends_combine_call henvironment h
  unfold transcript
  rw [hparse]
  dsimp only
  unfold Call.transcript
  rw [hends]
  simp [Command.logTarget, LogTarget.transcript, Outcome.model]

/-! ## Programs that are started -/

section Started

variable {launch : Launcher} {words args : List String} {name : String}

theorem startedBy_of_ok {finished : Finished}
    (hcommand : combineCommandLine words files options = name :: args)
    (hlaunch : launch tree name args = .ok finished) (hstatus : finished.status = .code 0) :
    Combiner.startedBy launch words files options tree solver =
      ⟨.ok (Text.decodeLossy finished.output), [], finished.tree, solver⟩ := by
  unfold Combiner.startedBy Combiner.delegated
  rw [hcommand]
  dsimp only
  rw [hlaunch]
  dsimp only
  rw [if_pos hstatus]

theorem startedBy_of_error {e : IoError}
    (hcommand : combineCommandLine words files options = name :: args)
    (hlaunch : launch tree name args = .error e) :
    Combiner.startedBy launch words files options tree solver =
      ⟨.error (.io name e), [], tree, solver⟩ := by
  unfold Combiner.startedBy Combiner.delegated
  rw [hcommand]
  dsimp only
  rw [hlaunch]

end Started

/-! ## Words that reach the program -/

/-- The word can be passed to a program. -/
def IsPassable (w : String) : Prop :=
  '\x00' ∉ w.toList

instance (w : String) : Decidable (IsPassable w) :=
  inferInstanceAs (Decidable (¬ _))

/-- A path to a file that can be read is not empty and can be passed. -/
theorem isPassable_of_readText {path source : String} (h : tree.readText path = .ok source) :
    path ≠ "" ∧ IsPassable path := by
  have hlocate : Tree.textError? path = none := by
    cases herror : Tree.textError? path with
    | none => rfl
    | some e =>
        unfold Tree.readText Tree.readBytes Tree.at? Tree.locate at h
        rw [herror] at h
        simp [bind, Except.bind] at h
  unfold Tree.textError? at hlocate
  split at hlocate
  · simp at hlocate
  · next hmark =>
      split at hlocate
      · simp at hlocate
      · next hne => exact ⟨hne, fun hmem => hmark (List.contains_iff_mem.2 hmem)⟩

theorem readText_of_readSources {sources : List String}
    (h : Combiner.readSources tree files = .ok sources) :
    ∀ path ∈ files, ∃ source, tree.readText path = .ok source := by
  induction files generalizing sources with
  | nil => simp
  | cons path files ih =>
      unfold Combiner.readSources at h
      split at h
      · simp at h
      · next source hread =>
          cases hrest : Combiner.readSources tree files with
          | error e => simp [hrest, Except.map] at h
          | ok rest => exact List.forall_mem_cons.2 ⟨⟨source, hread⟩, ih hrest⟩

theorem isPassable_name (kind : PluginKind) : IsPassable kind.name := by
  cases kind with
  | dropSpecs => decide
  | dedupConstraints => decide

/-- Words that name options can be passed, so all words can if the values can. -/
theorem isPassable_of_mem_words (hfiles : ∀ w ∈ files, IsPassable w)
    (hplugins : ∀ w ∈ options.plugins, IsPassable w)
    (hsettings : ∀ w ∈ options.pluginOptions, IsPassable w)
    (hdeclarations : ∀ w ∈ options.declarations, IsPassable w) :
    ∀ w ∈ "--combine" :: (combineFilled files options).words, IsPassable w := by
  refine List.forall_mem_cons.2 ⟨by decide, ?_⟩
  intro w hw
  obtain ⟨⟨o, values⟩, hgroup, hw⟩ := List.mem_flatMap.1 hw
  have hvalue (hname : IsPassable o.word) (hvalues : ∀ v ∈ values, IsPassable v) : IsPassable w :=
    List.forall_mem_cons.2 ⟨hname, hvalues⟩ w hw
  rcases mem_combineFilled hgroup with ⟨rfl, rfl⟩ | ⟨rfl, rfl⟩ | ⟨rfl, rfl⟩ | ⟨rfl, rfl⟩
  · exact hvalue (by decide) hfiles
  · exact hvalue (by decide) hplugins
  · exact hvalue (by decide) hsettings
  · exact hvalue (by decide) hdeclarations

/-- No program of the shell has the name of the program itself. -/
theorem shell_installedName {args : List String} (h : ∀ w ∈ args, IsPassable w) :
    Launcher.shell tree installedName args = .error .notFound := by
  have hmark : ((installedName :: args).any fun w => w.toList.contains '\x00') = false := by
    rw [List.any_eq_false]
    intro w hw hmem
    have hpassable : ∀ w ∈ installedName :: args, IsPassable w :=
      List.forall_mem_cons.2 ⟨by decide, h⟩
    exact hpassable w hw (List.contains_iff_mem.1 hmem)
  have hunknown : (Shell.Program.known? installedName).isSome = false := by decide
  have hslash : installedName.toList.contains '/' = false := by decide
  have hsearch : Shell.Program.searchError installedName = .notFound := by decide
  have herror : Shell.Program.startError? tree installedName args = some .notFound := by
    unfold Shell.Program.startError?
    rw [hmark, hunknown, hslash, hsearch]
    rfl
  unfold Launcher.shell
  rw [herror]

theorem orItself_installedName {args : List String} (h : ∀ w ∈ args, IsPassable w) :
    Launcher.shell.orItself programs environment idle tree installedName args =
      .ok (transcript programs environment args ⟨tree, [], idle, []⟩).finished := by
  rw [Launcher.orItself, shell_installedName h]
  exact if_pos rfl

/-- The program itself as the program that combines models. Its command line is read as the call of
a combination of the same files with the same options; that call prints the model that the built-in
combiner makes, and reports beside it; and so the detour leads to the same model. -/
theorem startedBy_itself (programs : Programs τ) (idle : τ) (hfiles : files ≠ [])
    (hpaths : ∀ path ∈ files, IsPlain path)
    (henvironment : ∀ v ∈ environment, Configuration.variableKey? v.1 = none)
    (hsettings : ∀ w ∈ options.pluginOptions, IsPassable w)
    (hdeclarations : ∀ w ∈ options.declarations, IsPassable w)
    (h : (Combiner.builtin files options tree solver).result = .ok text) :
    ∃ args, combineCommandLine [installedName] files options = installedName :: args ∧
      Call.parse args = .ok ⟨⟨none, false⟩, .combine ⟨files, options, none⟩⟩ ∧
      transcript programs environment args ⟨tree, [], idle, []⟩ =
        ⟨text, logLines (Combiner.builtin files options tree solver).reports, 0, tree⟩ ∧
      Combiner.startedBy (Launcher.shell.orItself programs environment idle) [installedName] files
        options tree solver = ⟨.ok text, [], tree, solver⟩ := by
  obtain ⟨sources, model, hsources, hcombined, -⟩ := exists_isCombined_of_builtin h
  obtain ⟨hplainPlugins, hplainSettings, hplainDeclarations⟩ := isPlain_of_isCombined hcombined
  obtain ⟨plugins, -, hselect, -⟩ := hcombined
  have hreadable : ∀ path ∈ files, path ≠ "" ∧ IsPassable path := by
    intro path hpath
    obtain ⟨source, hread⟩ := readText_of_readSources hsources path hpath
    exact isPassable_of_readText hread
  have hcommand : combineCommandLine [installedName] files options =
      installedName :: "--combine" :: (combineFilled files options).words :=
    combineCommandLine_eq _ _ _
  have hparse := parse_combineFilled hfiles
    (fun path hpath => ⟨(hreadable path hpath).1, hpaths path hpath⟩)
    hplainPlugins hplainSettings hplainDeclarations
  have htranscript : transcript programs environment
      ("--combine" :: (combineFilled files options).words) ⟨tree, [], idle, []⟩ = _ :=
    transcript_combine_call henvironment hparse h
  have hplugins : ∀ w ∈ options.plugins, IsPassable w := by
    intro w hw
    obtain ⟨kind, rfl⟩ := Plugin.exists_name_of_select hselect w hw
    exact isPassable_name kind
  have hpassable : ∀ w ∈ "--combine" :: (combineFilled files options).words, IsPassable w :=
    isPassable_of_mem_words (fun w hw => (hreadable w hw).2) hplugins hsettings hdeclarations
  refine ⟨_, hcommand, hparse, htranscript, ?_⟩
  rw [startedBy_of_ok hcommand (orItself_installedName hpassable)] <;> rw [htranscript]
  · rw [Transcript.finished, Text.decodeLossy_encode]
  · rfl

end Run

/-- Two model files, one of them with a specification that no counter is in. -/
def modelFiles : Tree :=
  ⟨[(["a.smv"], .file (Text.encode "VAR x : boolean;\nSPEC AG x\n")),
    (["b.smv"], .file (Text.encode "VAR z : 0..2;\nSPEC AG z < 2\n"))]⟩

/-- Options with one value for every list. -/
def fullOptions : CombineOptions :=
  ⟨["DropSpecs"], [" keep = z < 2"], ["y : 0..1;"]⟩

/-- The model of the files with the options. -/
def fullModel : String :=
  "MODULE main\nVAR\n    x : boolean;\n    z : 0..2;\n    y : 0..1;\nSPEC AG z < 2\n"

theorem builtin_modelFiles :
    (Combiner.builtin ["a.smv", "b.smv"] fullOptions modelFiles ()).result = .ok fullModel := by
  decide +kernel

theorem startedBy_itself_full :
    (Combiner.builtin ["a.smv", "b.smv"] fullOptions modelFiles ()).result = .ok fullModel ∧
      combineCommandLine [installedName] ["a.smv", "b.smv"] fullOptions =
        ["deadline", "--combine", "--input", "a.smv", "b.smv", "--plugins", "DropSpecs",
          "--plugin-options", " keep = z < 2", "--variables", "y : 0..1;"] ∧
      Combiner.startedBy (Launcher.shell.orItself Programs.byName [("PATH", "/bin")] none)
        [installedName] ["a.smv", "b.smv"] fullOptions modelFiles () =
          ⟨.ok fullModel, [], modelFiles, ()⟩ := by
  have hpaths : ∀ path ∈ ["a.smv", "b.smv"], IsPlain path :=
    List.forall_mem_cons.2 ⟨by decide, List.forall_mem_singleton.2 (by decide)⟩
  have henvironment : ∀ v ∈ [("PATH", "/bin")], Configuration.variableKey? v.1 = none :=
    List.forall_mem_singleton.2 (by decide)
  obtain ⟨args, -, -, -, hsame⟩ := startedBy_itself Programs.byName none (by simp) hpaths
    henvironment (List.forall_mem_singleton.2 (by decide)) (List.forall_mem_singleton.2 (by decide))
    builtin_modelFiles
  exact ⟨builtin_modelFiles, by decide, hsame⟩

/-- A variable with the character that ends texts in its type. -/
def markedOptions : CombineOptions :=
  ⟨[], [], ["y : 0..1\x00"]⟩

/-- The built-in combiner accepts more than can be passed to a program. -/
theorem not_always_same_by_itself :
    ¬ ∀ (files : List String) (options : CombineOptions) (tree : Tree) (text : String),
      files ≠ [] → (∀ path ∈ files, path ≠ "" ∧ IsPlain path) →
        (Combiner.builtin files options tree ()).result = .ok text →
          (Combiner.startedBy (Launcher.shell.orItself Programs.byName [] none) [installedName]
            files options tree ()).result = .ok text := by
  intro hsame
  have hbuiltin : (Combiner.builtin ["a.smv"] markedOptions modelFiles ()).result =
      .ok "MODULE main\nVAR\n    x : boolean;\n    y : 0..1\x00;\nSPEC AG x\n" := by
    decide +kernel
  have herror : Shell.Program.startError? modelFiles installedName
      ["--combine", "--input", "a.smv", "--variables", "y : 0..1\x00"] =
        some (.other "nul byte found in provided data") := by
    decide
  have hstarted := hsame ["a.smv"] markedOptions modelFiles _ (by simp)
    (List.forall_mem_singleton.2 (by decide)) hbuiltin
  have hcommand : combineCommandLine [installedName] ["a.smv"] markedOptions =
      [installedName, "--combine", "--input", "a.smv", "--variables", "y : 0..1\x00"] := by
    decide
  have hlaunch : Launcher.shell.orItself Programs.byName [] none modelFiles installedName
      ["--combine", "--input", "a.smv", "--variables", "y : 0..1\x00"] =
        .error (.other "nul byte found in provided data") := by
    unfold Launcher.orItself Launcher.shell
    rw [herror]
  rw [startedBy_of_error hcommand hlaunch] at hstarted
  simp at hstarted

end Punctual
