import Punctual.Proofs.Check.Certificate
import Punctual.Proofs.Check.Completion
import Punctual.Proofs.Model.Rendering
import Punctual.Proofs.Specification.Formula

/-!
# The models a search writes

A search writes the combined model with a claim behind its text. The text of a model with auxiliary
modules ends inside the last of them, and what follows belongs to that module: `main` gets the claim
just if the text ends outside of auxiliary modules (`search_writes`).
-/

namespace Punctual.BmcSearch

open Fragment Text

/-! ## One more claim -/

/-- The text is a model and, in its module `main`, a claim behind all sections. -/
def AddsClaim (model claim text : String) : Prop :=
  parse text = { parse model with
    sections := (parse model).sections ++ [⟨.spec, "LTLSPEC", [claim]⟩] }

/-- The text is a model whose last auxiliary module goes on with a claim. -/
def MisplacesClaim (model claim text : String) : Prop :=
  ∃ front name body, (parse model).modules = front ++ [(name, body)] ∧
    parse text = { parse model with
      modules := front ++ [(name, body ++ "\n" ++ ("LTLSPEC " ++ claim))] }

theorem MisplacesClaim.not_addsClaim {model claim text : String}
    (h : MisplacesClaim model claim text) : ¬ AddsClaim model claim text := by
  intro hadds
  obtain ⟨front, name, body, -, hparse⟩ := h
  have hsections := congrArg Fragment.sections (hadds.symm.trans hparse)
  simp at hsections

section Claim

variable {model claim : String}

theorem endsSolid_claimLine (hclaim : IsFormula claim) :
    EndsSolid ("LTLSPEC " ++ claim).toList := by
  rw [String.toList_append]
  exact hclaim.endsSolid.append_left _

/-- The claim makes a line of its own. -/
theorem lines_claimModel (hmodel : IsEnded model) (hclaim : IsFormula claim) :
    lines (claimModel model claim) = lines model ++ ["LTLSPEC " ++ claim] := by
  obtain ⟨body, rfl, hbody⟩ := hmodel
  have htrimmed : trimEnd (body ++ "\n") = body := by
    have hblank : ∀ b ∈ "\n".toList, isBlank b := List.forall_mem_singleton.2 (by decide)
    apply String.toList_injective
    rw [toList_trimEnd, String.toList_append, rdropWhile_append_blanks _ hblank,
      hbody.rdropWhile_eq]
  have hkeyword : IsLine "LTLSPEC " := by decide
  have hshown : claimModel (body ++ "\n") claim =
      body ++ "\n" ++ ("LTLSPEC " ++ claim) ++ "\n" := by
    simp only [claimModel, htrimmed, String.append_assoc]
  rw [hshown]
  exact lines_ended_append body (hkeyword.append hclaim.isLine) (endsSolid_claimLine hclaim)

theorem addsClaim_of_outside (hmodel : IsEnded model) (hclaim : IsFormula claim)
    (houtside : endsInside false (lines model) = false) :
    AddsClaim model claim (claimModel model claim) := by
  have hne : claim ≠ "" := by
    rintro rfl
    exact hclaim.endsSolid.ne_nil rfl
  exact parse_of_outside (lines_claimModel hmodel hclaim) (lineKind_claim hclaim.trimmed) hne
    houtside

theorem misplacesClaim_of_inside (hmodel : IsEnded model) (hclaim : IsFormula claim)
    (hinside : endsInside false (lines model) = true) :
    MisplacesClaim model claim (claimModel model claim) := by
  have hmore := lines_claimModel hmodel hclaim
  obtain ⟨body, rfl, hbody⟩ := hmodel
  obtain ⟨init, last, hlines, hlast⟩ := exists_last_line hbody
  exact parse_of_inside hmore (lineKind_claim hclaim.trimmed) (endsSolid_claimLine hclaim) hlines
    hlast hinside

/-- Where the claim ends up is decided by where the text of the model ends. -/
theorem addsClaim_iff (hmodel : IsEnded model) (hclaim : IsFormula claim) :
    (AddsClaim model claim (claimModel model claim) ↔
      endsInside false (lines model) = false) ∧
    (MisplacesClaim model claim (claimModel model claim) ↔
      endsInside false (lines model) = true) := by
  cases hends : endsInside false (lines model) with
  | false =>
      have hadds := addsClaim_of_outside hmodel hclaim hends
      have hmisplaces : ¬ MisplacesClaim model claim (claimModel model claim) :=
        fun h => h.not_addsClaim hadds
      exact ⟨iff_of_true hadds rfl, iff_of_false hmisplaces (by decide)⟩
  | true =>
      have hmisplaces := misplacesClaim_of_inside hmodel hclaim hends
      exact ⟨iff_of_false hmisplaces.not_addsClaim (by decide), iff_of_true hmisplaces rfl⟩

end Claim

/-! ## The models of a search -/

section Models

variable {σ : Type} {backend : Backend σ} {dir : String} {options : BmcOptions} {model : String}
  {target : Target} {s : BmcSearch} {es : List Event}

theorem isFormula_claimBefore (target : Target) (known : Option Time) :
    IsFormula (target.claimBefore known) := by
  cases known with
  | none => exact target.isFormula_neverCompletes
  | some time => exact target.isFormula_notCompletedBefore time

/-- A search that comes to a result has written the model with its first claim. -/
theorem SearchEvents.mem_of_ok {s' : BmcSearch}
    (h : SearchEvents dir options model target s es (.ok s')) :
    .wrote .bmc (claimModel model (s.claim target)) ∈ es := by
  obtain ⟨last, es₁, es₂, rfl, hsearching, hends⟩ := h
  cases hsearching with
  | nil =>
      cases hends with
      | exhausted hnone => exact List.mem_cons_self
      | met haccepts hmet => exact List.mem_cons_self
  | cons _ _ _ _ => exact List.mem_cons_self

/-- What a search does belongs to its runs. A run writes the combined model with a claim, which
excludes all completions that were reported before, and has it checked. The claim is added to the
module `main` just if the text of the combined model ends outside of auxiliary modules. It ends
inside one as soon as a source has one; then the claim goes into this module. -/
theorem search_writes {sources : List String} {combineOptions : CombineOptions}
    {context context' : Context} {log log' : Log} {w w' : World σ}
    {r : Except (Stop CheckError) BmcSearch} (combiner : Combiner σ)
    (hcombined : Ends (combine sources combineOptions context) log (.ok (model, context')) log')
    (h : Ends (search backend dir options model target) w r w') :
    (∃ es, Course backend combiner dir w es w' ∧
      (∀ s, r = .ok s → .wrote .bmc (claimModel model target.neverCompletes) ∈ es) ∧
      ∀ e ∈ es, ∃ before claim timeout answer after,
        claim = target.claimBefore (completions (Event.exchanges before)).min? ∧
          es = before ++
            [.wrote .bmc (claimModel model claim),
              .asked (.run (claimModel model claim) options.bmcLength timeout answer)] ++ after ∧
          (e = .wrote .bmc (claimModel model claim) ∨
            e = .asked (.run (claimModel model claim) options.bmcLength timeout answer)) ∧
          (AddsClaim model claim (claimModel model claim) ↔
            endsInside false (lines model) = false) ∧
          (MisplacesClaim model claim (claimModel model claim) ↔
            endsInside false (lines model) = true)) ∧
    ((∃ source ∈ sources, (parse source).modules ≠ []) →
      endsInside false (lines model) = true) := by
  obtain ⟨m, rfl, hsound, hmodules⟩ := combine_eq_text hcombined
  obtain ⟨es, hevents, hcourse⟩ := search_course combiner h
  refine ⟨⟨es, hcourse, ?_, ?_⟩, fun hsources => m.endsInside_text hsound (hmodules hsources)⟩
  · rintro s rfl
    exact hevents.mem_of_ok
  · intro e he
    obtain ⟨before, point, answer, after, hbefore, heq, hrun⟩ := hevents.exists_run he
    rw [runEvents, claim, hbefore.finalTime_of_start] at heq hrun
    have hplaced := addsClaim_iff (Model.isEnded_text hsound)
      (isFormula_claimBefore target (completions (Event.exchanges before)).min?)
    refine ⟨before, _, point.timeout, answer, after, rfl, heq, ?_, hplaced.1, hplaced.2⟩
    simpa using hrun

end Models

/-- A model source with an auxiliary module. -/
def pumpSource : String :=
  "MODULE main\nVAR\n    p : pump;\nMODULE pump\nVAR\n    on : boolean;\n"

/-- The same as a combined model. -/
def pumpModel : String :=
  "MODULE main\nVAR\n    p : pump;\n\nMODULE pump\nVAR\n    on : boolean;\n"

/-- A claim that ends up in the auxiliary module. -/
theorem search_writes_pumpModel :
    ∃ context log r w',
      Ends (combine [pumpSource] .none .empty) [] (.ok (pumpModel, context)) log ∧
      Ends (search Check.agreeable "." .default pumpModel ⟨"u", "n", 1, 5⟩)
        ⟨.empty, [], (), []⟩ r w' ∧
      ∃ es claim, Course Check.agreeable Combiner.builtin "." ⟨.empty, [], (), []⟩ es w' ∧
        .wrote .bmc (claimModel pumpModel claim) ∈ es ∧
        MisplacesClaim pumpModel claim (claimModel pumpModel claim) := by
  obtain ⟨rc, log, hcombined, hrc⟩ := exists_ends_of_endsIn (combine [pumpSource] .none .empty) []
    (fun r => r.toOption.any (·.1 = pumpModel)) (by decide +kernel)
  obtain ⟨r, w', h, hr⟩ := exists_ends_of_endsIn
    (search Check.agreeable "." .default pumpModel ⟨"u", "n", 1, 5⟩) ⟨.empty, [], (), []⟩
    (fun r => r.toOption.isSome) (by decide +kernel)
  cases rc with
  | error e => simp [Except.toOption] at hrc
  | ok combined =>
      obtain ⟨model, context⟩ := combined
      obtain rfl : model = pumpModel := by simpa [Except.toOption] using hrc
      cases r with
      | error stop => simp [Except.toOption] at hr
      | ok s =>
          obtain ⟨⟨es, hcourse, hfirst, hevents⟩, hinside⟩ :=
            search_writes Combiner.builtin hcombined h
          have hwrote := hfirst s rfl
          obtain ⟨-, claim, timeout, answer, -, -, -, hevent, -, hmisplaces⟩ := hevents _ hwrote
          have htext : claimModel pumpModel (Target.neverCompletes ⟨"u", "n", 1, 5⟩) =
              claimModel pumpModel claim := by
            rcases hevent with hevent | hevent
            · exact (Event.wrote.inj hevent).2
            · exact absurd hevent (by simp)
          rw [htext] at hwrote
          have hmodules : (parse pumpSource).modules ≠ [] := by decide +kernel
          exact ⟨context, log, .ok s, w', hcombined, h, es, claim, hcourse, hwrote,
            hmisplaces.2 (hinside ⟨pumpSource, by simp, hmodules⟩)⟩

end Punctual.BmcSearch
