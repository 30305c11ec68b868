import Punctual.Proofs.CommandLine.Words
import Punctual.Proofs.Model.Declaration
import Punctual.Proofs.Model.Plugins

/-!
# Options that are accepted

A combination that succeeds has accepted all its options: the plugins are known by their names, a
plugin has taken every setting by its key, and every declaration gives the name of a variable. None
of these can be mistaken for the name of an option of a command line (`isPlain_of_isCombined`).
-/

namespace Punctual

open CommandLine Text

/-! ## First characters -/

section Head

variable {c sep : Char} {s front rest : String}

theorem head?_rdropWhile {p : Char → Bool} {cs : List Char} (hc : p c = false)
    (h : cs.head? = some c) : (cs.rdropWhile p).head? = some c := by
  cases cs with
  | nil => simp at h
  | cons d cs =>
      obtain rfl := Option.some.inj h
      have hkept := rdropWhile_append_cons hc [] cs
      rw [List.nil_append, List.nil_append] at hkept
      rw [hkept, List.head?_cons]

theorem head?_trim (hc : isBlank c = false) (h : s.toList.head? = some c) :
    (trim s).toList.head? = some c := by
  rw [toList_trim]
  apply head?_rdropWhile hc
  cases hs : s.toList with
  | nil => simp [hs] at h
  | cons d cs =>
      rw [hs] at h
      obtain rfl := Option.some.inj h
      rw [List.dropWhile_cons_of_neg (by simp [hc]), List.head?_cons]

theorem head?_splitOnce (hc : c ≠ sep) (h : s.toList.head? = some c)
    (hcut : splitOnce? s sep = some (front, rest)) : front.toList.head? = some c := by
  obtain ⟨⟨before, after⟩, hfound, heq⟩ := Option.map_eq_some_iff.1 hcut
  obtain ⟨rfl, rfl⟩ := Prod.mk.inj heq
  rw [(cutAt?_eq_some_iff.1 hfound).1] at h
  rw [String.toList_ofList]
  cases before with
  | nil => exact absurd (Option.some.inj h).symm hc
  | cons d before => exact h

end Head

/-! ## Declarations -/

/-- What declares a variable begins with its name, up to blanks. -/
theorem isPlain_of_parseDeclaration {declaration name type : String}
    (h : parseDeclaration declaration = .ok (name, type)) : IsPlain declaration := by
  intro hhead
  have hhyphen : isBlank '-' = false := by decide
  -- the hyphen stays in front whatever is cut off behind
  have hbare : (trim (.ofList (dropEndWhile (· == ';') (trim declaration).toList))).toList.head? =
      some '-' := by
    apply head?_trim hhyphen
    rw [String.toList_ofList]
    exact head?_rdropWhile (by decide) (head?_trim hhyphen hhead)
  unfold parseDeclaration at h
  dsimp only at h
  split at h
  · simp at h
  · next first rest hcut =>
      have hname := head?_trim hhyphen (head?_splitOnce (by decide) hbare hcut)
      split at h
      · next hvalid =>
          have hchar := List.all_eq_true.1 hvalid.2.1 '-' (List.mem_of_head? hname)
          exact absurd hchar (by decide)
      · simp at h

/-- Declarations that are merged begin with the names of variables. -/
theorem isPlain_of_mergeWithVariables {fs : List Fragment} {declarations : List String}
    {m m' : Merge} (h : Ends (mergeWithVariables fs declarations) m (.ok ⟨⟩) m') :
    ∀ d ∈ declarations, IsPlain d := by
  obtain ⟨⟨⟩, m₁, -, hdeclarations⟩ := ends_bind_ok.1 h
  intro d hd
  obtain ⟨m₂, m₃, hmerged⟩ := forM_each hdeclarations d hd
  unfold mergeDeclaration at hmerged
  split at hmerged
  · exact absurd (ends_throw.1 hmerged).1 (by simp)
  · next hparse => exact isPlain_of_parseDeclaration hparse

/-! ## Plugins and their settings -/

namespace Plugin

theorem isPlain_name (kind : PluginKind) : IsPlain kind.name := by
  cases kind with
  | dropSpecs => decide
  | dedupConstraints => decide

/-- The only key that a plugin knows. -/
theorem eq_keep_of_offer {key value : String} {ps ps' : List Plugin}
    (h : offer key value ps = .ok (ps', true)) : key = "keep" := by
  induction ps generalizing ps' with
  | nil => simp [offer] at h
  | cons p ps ih =>
      rw [offer] at h
      obtain ⟨taken, htaken, h⟩ := except_bind_eq_ok.1 h
      obtain ⟨⟨others, fromOthers⟩, hothers, h⟩ := except_bind_eq_ok.1 h
      obtain ⟨-, htrue⟩ := Prod.mk.inj (except_pure_eq_ok.1 h)
      cases fromOthers with
      | true => exact ih hothers
      | false =>
          rw [Bool.or_false] at htrue
          cases p with
          | dedupConstraints =>
              obtain rfl := Except.ok.inj htaken
              simp at htrue
          | dropSpecs keep =>
              by_contra hne
              rw [configure, if_pos hne] at htaken
              obtain rfl := Except.ok.inj htaken
              simp at htrue

theorem isPlain_of_parseOption {option value : String}
    (h : parseOption option = .ok ("keep", value)) : IsPlain option := by
  intro hhead
  unfold parseOption at h
  split at h
  · next key rest hcut =>
      have hkey := head?_trim (by decide) (head?_splitOnce (by decide) hhead hcut)
      split at h
      · rw [(Prod.mk.inj (Except.ok.inj h)).1] at hkey
        exact absurd hkey (by decide)
      · simp at h
  · simp at h

/-- Every setting that is set has a key that a plugin knows. -/
theorem isPlain_of_setOptions {ps ps' : List Plugin} {options : List String}
    (h : setOptions ps options = .ok ps') : ∀ o ∈ options, IsPlain o := by
  induction options generalizing ps with
  | nil => simp
  | cons option options ih =>
      rw [setOptions] at h
      obtain ⟨⟨key, value⟩, hparse, h⟩ := except_bind_eq_ok.1 h
      obtain ⟨⟨next, taken⟩, hoffer, hset⟩ := except_bind_eq_ok.1 h
      cases taken with
      | false => simp at hset
      | true =>
          obtain rfl := eq_keep_of_offer hoffer
          exact List.forall_mem_cons.2 ⟨isPlain_of_parseOption hparse, ih hset⟩

theorem isPlain_of_select {names options : List String} {ps : List Plugin}
    (h : select names options = .ok ps) :
    (∀ n ∈ names, IsPlain n) ∧ ∀ o ∈ options, IsPlain o := by
  constructor
  · intro n hn
    obtain ⟨kind, rfl⟩ := exists_name_of_select h n hn
    exact isPlain_name kind
  · obtain ⟨kinds, -, hset⟩ := except_bind_eq_ok.1 h
    exact isPlain_of_setOptions hset

end Plugin

/-- None of the options of a combination that succeeds begins with a hyphen. -/
theorem isPlain_of_isCombined {sources : List String} {options : CombineOptions} {context : Context}
    {model : Model} (h : IsCombined sources options context model) :
    (∀ w ∈ options.plugins, IsPlain w) ∧ (∀ w ∈ options.pluginOptions, IsPlain w) ∧
      ∀ w ∈ options.declarations, IsPlain w := by
  obtain ⟨plugins, m, hselect, hmerged, -⟩ := h
  obtain ⟨hplugins, hsettings⟩ := Plugin.isPlain_of_select hselect
  exact ⟨hplugins, hsettings, isPlain_of_mergeWithVariables hmerged⟩

end Punctual
