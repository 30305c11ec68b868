import Mathlib.Tactic.Common
import Punctual.CommandLine.Call

/-!
# Command lines that are written and read

Options that take all values up to the next option can be written one behind the other, each as its
name and its values. If no value begins with a hyphen, reading finds the same options with the same
values (`readOptions_optionWords`). So the words that start a program to combine files are read as
the call of a combination (`parse_combineCommandLine`).
-/

namespace Punctual.CommandLine

/-- The word is not read as the name of an option. -/
def IsPlain (w : String) : Prop :=
  w.toList.head? ≠ some '-'

instance (w : String) : Decidable (IsPlain w) :=
  inferInstanceAs (Decidable (_ ≠ _))

section Words

variable {g : Grammar} {s : Scan} {o : OptionSpec} {w : String} {given : Given}
  {values : List String}

/-! ## Values -/

/-- A plain word is a value where values are collected. -/
theorem word_of_isPlain (hcollects : s.collects) (hall : s.takesAll = false) (hw : IsPlain w) :
    s.word g w = .ok (.going (s.collect w)) := by
  unfold Scan.word
  rw [if_neg (by simp [hall]), if_neg (by simp [hcollects])]
  unfold IsPlain at hw
  split
  · next h => simp [h] at hw
  · next h => simp [h] at hw
  · next h => simp [h] at hw
  · rw [if_pos hcollects]

/-- The option takes all values up to the next option. -/
structure OptionSpec.IsGreedy (o : OptionSpec) : Prop where
  arity : o.arity = .atLeastOne
  repeats : o.repeats
  takesAll : o.takesAll = false

/-- The values of an option are read in order. -/
theorem words_values (ho : o.IsGreedy) (hvalues : ∀ v ∈ values, IsPlain v)
    (before ws : List String) :
    Scan.words g (values ++ ws) ⟨given, some (o, before), true⟩ =
      Scan.words g ws ⟨given, some (o, before ++ values), true⟩ := by
  induction values generalizing before with
  | nil => rw [List.append_nil, List.nil_append]
  | cons v values ih =>
      obtain ⟨hv, hothers⟩ := List.forall_mem_cons.1 hvalues
      have hall : Scan.takesAll ⟨given, some (o, before), true⟩ = false := by
        simp [Scan.takesAll, ho.takesAll]
      have hcollect : Scan.collect ⟨given, some (o, before), true⟩ v =
          ⟨given, some (o, before ++ [v]), true⟩ := by
        simp [Scan.collect, OptionSpec.takesMore, ho.arity]
      rw [List.cons_append, Scan.words, word_of_isPlain rfl hall hv]
      dsimp only
      rw [hcollect, ih hothers, List.append_assoc, List.singleton_append]

/-! ## Options -/

/-- The word that names an option. -/
def OptionSpec.word (o : OptionSpec) : String :=
  "--" ++ o.name

/-- The option is found under its name, which is one. -/
structure Grammar.Knows (g : Grammar) (o : OptionSpec) : Prop where
  found : g.options.find? (·.name = o.name) = some o
  nonempty : o.name ≠ ""
  noValue : '=' ∉ o.name.toList

/-- Behind the name of a greedy option its values are collected; those of the option before it are
complete. -/
theorem word_name {settled : Scan} (hg : g.commands = []) (ho : o.IsGreedy) (hknows : g.Knows o)
    (hall : s.takesAll = false) (hsettle : s.settle = .ok settled) :
    s.word g o.word = .ok (.going { settled with pending := some (o, []), collects := true }) := by
  obtain ⟨c, cs, hchars⟩ := List.exists_cons_of_ne_nil fun hnil =>
    hknows.nonempty (String.toList_eq_nil_iff.1 hnil)
  have htoList : o.word.toList = '-' :: '-' :: c :: cs := by
    rw [OptionSpec.word, String.toList_append, hchars]
    rfl
  have hname : String.ofList (c :: cs) = o.name := by rw [← hchars, String.ofList_toList]
  have hcut : Text.cutAt? '=' (c :: cs) = none := by
    rw [← hchars, Option.eq_none_iff_forall_not_mem]
    rintro ⟨before, after⟩ hcut
    apply hknows.noValue
    rw [(Text.cutAt?_eq_some_iff.1 hcut).1]
    simp
  have hlong : s.long g o.name none =
      .ok (.going { settled with pending := some (o, []), collects := true }) := by
    unfold Scan.long Scan.begin
    rw [hknows.found]
    simp only [hsettle, ho.arity]
    rfl
  unfold Scan.word
  rw [if_neg (by simp [hall]), if_neg (by simp [hg]), htoList]
  split
  · next h => simp at h
  · next rest _ h =>
      obtain rfl : c :: cs = rest := by simpa using h
      rw [hcut, hname]
      exact hlong
  · next hsecond heq => exact (hsecond (List.cons.inj (List.cons.inj heq).2).1.symm).elim
  · next htwo _ => exact (htwo _ rfl).elim

/-- The values of an option that are complete are taken. -/
theorem settle_values (ho : o.IsGreedy) (hne : values ≠ [])
    (hjudge : ∀ v ∈ values, o.judgeValue v = .ok ()) :
    Scan.settle ⟨given, some (o, values), true⟩ =
      .ok ⟨given ++ [(o.name, values)], none, false⟩ := by
  have hnumber : o.judgeNumber values.length = .ok () := by
    simp [OptionSpec.judgeNumber, ho.arity, hne]
  have hvalues : values.forM o.judgeValue = .ok () := by
    clear hne hnumber
    induction values with
    | nil => rfl
    | cons v values ih =>
        obtain ⟨hv, hothers⟩ := List.forall_mem_cons.1 hjudge
        have hstep : (v :: values).forM o.judgeValue =
            o.judgeValue v >>= fun _ => values.forM o.judgeValue := rfl
        rw [hstep, hv]
        exact ih hothers
  unfold Scan.settle Scan.accept
  simp only [hnumber, ho.repeats, hvalues]
  rfl

end Words

/-! ## Options one behind the other -/

/-- Options with their values. -/
abbrev Filled := List (OptionSpec × List String)

namespace Filled

/-- The words that give the options their values. -/
def words (groups : Filled) : List String :=
  groups.flatMap fun (o, values) => o.word :: values

/-- The options as they are given. -/
def given (groups : Filled) : Given :=
  groups.map fun (o, values) => (o.name, values)

end Filled

/-- The option can be written with the values, and is known. -/
structure Grammar.Takes (g : Grammar) (o : OptionSpec) (values : List String) : Prop where
  greedy : o.IsGreedy
  knows : g.Knows o
  nonempty : values ≠ []
  plain : ∀ v ∈ values, IsPlain v
  judged : ∀ v ∈ values, o.judgeValue v = .ok ()

section Filled

variable {g : Grammar} {groups : Filled}

theorem words_optionWords (hg : g.commands = [])
    (h : ∀ group ∈ groups, g.Takes group.1 group.2) {s : Scan} {given : Given}
    (hall : s.takesAll = false) (hsettle : s.settle = .ok ⟨given, none, false⟩) :
    ∃ s', Scan.words g groups.words s = .ok (s', none) ∧
      s'.settle = .ok ⟨given ++ groups.given, none, false⟩ := by
  induction groups generalizing s given with
  | nil =>
      refine ⟨s, rfl, ?_⟩
      rw [hsettle]
      simp [Filled.given]
  | cons group groups ih =>
      obtain ⟨o, values⟩ := group
      obtain ⟨htakes, hothers⟩ := List.forall_mem_cons.1 h
      have hgreedy : o.IsGreedy := htakes.greedy
      have hwords : Filled.words ((o, values) :: groups) =
          o.word :: (values ++ Filled.words groups) := by
        simp [Filled.words]
      have hall' : Scan.takesAll ⟨given, some (o, values), true⟩ = false := by
        simp [Scan.takesAll, hgreedy.takesAll]
      have hsettle' : Scan.settle ⟨given, some (o, values), true⟩ =
          .ok ⟨given ++ [(o.name, values)], none, false⟩ :=
        settle_values hgreedy htakes.nonempty htakes.judged
      obtain ⟨s', hrest, hlast⟩ := ih hothers hall' hsettle'
      refine ⟨s', ?_, ?_⟩
      · rw [hwords, Scan.words, word_name hg hgreedy htakes.knows hall hsettle]
        dsimp only
        rw [words_values hgreedy htakes.plain, List.nil_append]
        exact hrest
      · rw [hlast, List.append_assoc]
        rfl

/-- Options that are written are read with their values. -/
theorem readOptions_optionWords (hg : g.commands = [])
    (h : ∀ group ∈ groups, g.Takes group.1 group.2)
    (hrequired : judgeRequired g groups.given = .ok ()) :
    readOptions g groups.words = .ok groups.given := by
  have hstart : Scan.settle .start = .ok ⟨[], none, false⟩ := rfl
  obtain ⟨s', hwords, hsettle⟩ := words_optionWords hg h rfl hstart
  unfold readOptions
  rw [hwords]
  simp only [bind, Except.bind, hsettle, List.nil_append, hrequired]
  rfl

end Filled

/-! ## Combinations -/

/-- The options of a combination with their values; those without a value are left out. -/
def combineFilled (files : List String) (options : CombineOptions) : Filled :=
  ((OptionSpec.several "input" (some 'i') .path).needed, files) ::
    [(.several "plugins" none .text, options.plugins),
      (.several "plugin-options" none .text, options.pluginOptions),
      (.several "variables" none .text, options.declarations)].filter fun (_, values) =>
        !values.isEmpty

section Combine

variable {files : List String} {options : CombineOptions}

theorem words_filter (groups : Filled) :
    Filled.words (groups.filter fun (_, values) => !values.isEmpty) =
      groups.flatMap fun (o, values) => if values.isEmpty then [] else o.word :: values := by
  induction groups with
  | nil => rfl
  | cons group groups ih =>
      obtain ⟨o, _ | ⟨v, values⟩⟩ := group
      · simpa using ih
      · simpa [Filled.words] using ih

/-- Options without values hold no values, whether they are given or not. -/
theorem valuesOf_filter (groups : Filled) (name : String) :
    valuesOf (Filled.given (groups.filter fun (_, values) => !values.isEmpty)) name =
      valuesOf groups.given name := by
  induction groups with
  | nil => rfl
  | cons group groups ih =>
      obtain ⟨o, _ | ⟨v, values⟩⟩ := group
      · simpa [Filled.given, valuesOf] using ih
      · simpa [Filled.given, valuesOf] using ih

theorem combineCommandLine_eq (command files : List String) (options : CombineOptions) :
    combineCommandLine command files options =
      command ++ "--combine" :: (combineFilled files options).words := by
  have hcons (o : OptionSpec) (values : List String) (groups : Filled) :
      Filled.words ((o, values) :: groups) = o.word :: values ++ groups.words := by
    simp [Filled.words]
  have hinput : (OptionSpec.several "input" (some 'i') .path).needed.word = "--input" := by decide
  have hplugins : (OptionSpec.several "plugins" none .text).word = "--plugins" := by decide
  have hsettings : (OptionSpec.several "plugin-options" none .text).word = "--plugin-options" := by
    decide
  have hvariables : (OptionSpec.several "variables" none .text).word = "--variables" := by decide
  rw [combineFilled, hcons, words_filter, combineCommandLine]
  simp only [List.flatMap_cons, List.flatMap_nil, hinput, hplugins, hsettings, hvariables,
    List.append_assoc, List.cons_append, List.append_nil]

theorem valuesOf_combineFilled (name : String) :
    valuesOf (combineFilled files options).given name =
      valuesOf [("input", files), ("plugins", options.plugins),
        ("plugin-options", options.pluginOptions), ("variables", options.declarations)] name := by
  have hcons (entry : String × List String) (given : Given) : valuesOf (entry :: given) name =
      (if entry.1 = name then entry.2 else []) ++ valuesOf given name := by
    simp [valuesOf]
  have hgiven (entry : OptionSpec × List String) (groups : Filled) :
      Filled.given (entry :: groups) = (entry.1.name, entry.2) :: groups.given := rfl
  rw [combineFilled, hgiven, hcons, valuesOf_filter, ← hcons]
  rfl

theorem ofGiven_combineFilled :
    CombineCall.ofGiven (combineFilled files options).given = ⟨files, options, none⟩ := by
  unfold CombineCall.ofGiven combineOptionsOf valueOf?
  simp only [valuesOf_combineFilled]
  simp [valuesOf]

theorem mem_combineFilled {o : OptionSpec} {values : List String}
    (h : (o, values) ∈ combineFilled files options) :
    (o = (OptionSpec.several "input" (some 'i') .path).needed ∧ values = files) ∨
      (o = .several "plugins" none .text ∧ values = options.plugins) ∨
      (o = .several "plugin-options" none .text ∧ values = options.pluginOptions) ∨
        (o = .several "variables" none .text ∧ values = options.declarations) := by
  rcases List.mem_cons.1 h with h | h
  · exact .inl (Prod.mk.inj h)
  · have hmem := (List.mem_filter.1 h).1
    simp only [List.mem_cons, Prod.mk.injEq, List.not_mem_nil, or_false] at hmem
    exact .inr hmem

/-- No option is written without values. -/
theorem ne_nil_of_mem_combineFilled (hfiles : files ≠ []) {o : OptionSpec} {values : List String}
    (h : (o, values) ∈ combineFilled files options) : values ≠ [] := by
  rcases List.mem_cons.1 h with h | h
  · rw [(Prod.mk.inj h).2]
    exact hfiles
  · simpa using (List.mem_filter.1 h).2

theorem takes_input (hfiles : files ≠ []) (hpaths : ∀ path ∈ files, path ≠ "" ∧ IsPlain path) :
    combineGrammar.Takes (OptionSpec.several "input" (some 'i') .path).needed files where
  greedy := ⟨rfl, rfl, rfl⟩
  knows := ⟨rfl, by decide, by decide⟩
  nonempty := hfiles
  plain path hpath := (hpaths path hpath).2
  judged path hpath := if_neg (hpaths path hpath).1

theorem takes_texts {name : String} {values : List String}
    (hknows : combineGrammar.Knows (.several name none .text)) (hne : values ≠ [])
    (hvalues : ∀ w ∈ values, IsPlain w) :
    combineGrammar.Takes (.several name none .text) values where
  greedy := ⟨rfl, rfl, rfl⟩
  knows := hknows
  nonempty := hne
  plain := hvalues
  judged _ _ := rfl

theorem takes_combineFilled (hfiles : files ≠ [])
    (hpaths : ∀ path ∈ files, path ≠ "" ∧ IsPlain path)
    (hplugins : ∀ w ∈ options.plugins, IsPlain w)
    (hsettings : ∀ w ∈ options.pluginOptions, IsPlain w)
    (hdeclarations : ∀ w ∈ options.declarations, IsPlain w) :
    ∀ group ∈ combineFilled files options, combineGrammar.Takes group.1 group.2 := by
  rintro ⟨o, values⟩ hgroup
  have hvalues := ne_nil_of_mem_combineFilled hfiles hgroup
  rcases mem_combineFilled hgroup with ⟨rfl, rfl⟩ | ⟨rfl, rfl⟩ | ⟨rfl, rfl⟩ | ⟨rfl, rfl⟩
  · exact takes_input hfiles hpaths
  · exact takes_texts ⟨rfl, by decide, by decide⟩ hvalues hplugins
  · exact takes_texts ⟨rfl, by decide, by decide⟩ hvalues hsettings
  · exact takes_texts ⟨rfl, by decide, by decide⟩ hvalues hdeclarations

/-- The words behind the name of the program that combines files are read as the call of a
combination of the same files with the same options. -/
theorem parse_combineFilled (hfiles : files ≠ [])
    (hpaths : ∀ path ∈ files, path ≠ "" ∧ IsPlain path)
    (hplugins : ∀ w ∈ options.plugins, IsPlain w)
    (hsettings : ∀ w ∈ options.pluginOptions, IsPlain w)
    (hdeclarations : ∀ w ∈ options.declarations, IsPlain w) :
    Call.parse ("--combine" :: (combineFilled files options).words) =
      .ok ⟨⟨none, false⟩, .combine ⟨files, options, none⟩⟩ := by
  have hcommand : Scan.word callGrammar "--combine" .start = .ok (.command "combine" .start) := rfl
  have hrequired : judgeRequired combineGrammar (combineFilled files options).given = .ok () := by
    have hinput : isGiven (combineFilled files options).given "input" = true := by
      simp [isGiven, combineFilled, Filled.given, OptionSpec.several, OptionSpec.needed]
    have hneeded : combineGrammar.options.filter (·.required) =
      [(OptionSpec.several "input" (some 'i') .path).needed] := rfl
    rw [judgeRequired, hneeded, List.all_cons, List.all_nil, Bool.and_true]
    exact if_pos hinput
  have hread := readOptions_optionWords rfl
    (takes_combineFilled hfiles hpaths hplugins hsettings hdeclarations) hrequired
  have hparse : Command.parse "combine" (combineFilled files options).words =
      .ok (.combine ⟨files, options, none⟩) := by
    have hcase (ws : List String) : Command.parse "combine" ws =
        (readOptions combineGrammar ws).map fun given => .combine (.ofGiven given) := rfl
    rw [hcase, hread, Except.map, ofGiven_combineFilled]
  unfold Call.parse
  rw [Scan.words, hcommand]
  simp only [bind, Except.bind, hparse]
  rfl

end Combine

end Punctual.CommandLine
