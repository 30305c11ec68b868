import Punctual.Proofs.Check.Agreement

/-!
# The earliest completion

A model checker that is complete for the times at which a target can be completed may choose, at
each claim, which of them it reports. Whatever it chooses, a search finds out whether there is such
a time, whether one of them meets the deadline, and if none does, which is the first
(`search_earliest`).

As with whole checks, this needs a timeout for each further run (`search_breaks_off`).
-/

namespace Punctual

variable {σ : Type}

namespace BmcSearch

section Earliest

variable {backend : Backend σ} {dir : String} {options : BmcOptions} {model : String}
  {target : Target} {times : Set Time} {deadline : Time} {found : BmcSearch} {w w' : World σ}
  {r : Except (Stop CheckError) BmcSearch}

theorem meets_eq_false_of_none (hnone : found.finalTime = none) :
    found.meets deadline = false := by
  simp [meets, hnone]

/-- A search finds nothing just if there is nothing to be found. -/
theorem Finds.finalTime_eq_none_iff (h : Finds times deadline found) :
    found.finalTime = none ↔ times = ∅ := by
  constructor
  · intro hnone
    refine Set.eq_empty_iff_forall_notMem.2 fun time htime => ?_
    obtain ⟨k, hk, -⟩ := h.least (meets_eq_false_of_none hnone) time htime
    rw [hnone] at hk
    simp at hk
  · rintro rfl
    exact Option.eq_none_iff_forall_not_mem.2 h.mem

/-- A search that finds nothing in time finds the first time, if there is any. -/
theorem Finds.exists_isLeast (h : Finds times deadline found)
    (hmissed : found.meets deadline = false) (hnonempty : times.Nonempty) :
    ∃ first, IsLeast times first ∧ found.finalTime = some first := by
  obtain ⟨time, htime⟩ := hnonempty
  obtain ⟨first, hfirst, -⟩ := h.least hmissed time htime
  refine ⟨first, ⟨h.mem first hfirst, fun later hlater => ?_⟩, hfirst⟩
  obtain ⟨k, hk, hle⟩ := h.least hmissed later hlater
  obtain rfl : first = k := Option.some.inj (hfirst.symm.trans hk)
  exact hle

/-- A search that a complete model checker answers tells whether the target can be completed, and
whether this is possible in time; if it is not, the search ends with the earliest completion. -/
theorem search_earliest (hcomplete : Complete backend dir options model target times)
    (hextensible : Extensible backend options)
    (h : Ends (search backend dir options model target) w r w')
    (hwritten : ∀ path e, r ≠ .error (.error (.artifact path e))) :
    ∃ found, r = .ok found ∧ (found.finalTime = none ↔ times = ∅) ∧
      (found.meets target.deadline ↔ ∃ time ∈ times, time ≤ target.deadline) ∧
        (found.meets target.deadline = false → times.Nonempty →
          ∃ first, IsLeast times first ∧ found.finalTime = some first) := by
  obtain ⟨found, -, rfl, hfinds, -⟩ :=
    search_finds Combiner.builtin h hcomplete hextensible hwritten
  exact ⟨found, rfl, hfinds.finalTime_eq_none_iff, hfinds.meets_iff, hfinds.exists_isLeast⟩

end Earliest

/-! ## A plant with two completion times -/

/-- What is printed about a claim that is refuted at a time, or about one that is not. -/
def outputAt : Option Time → String
  | some time => "-- specification is false\n    time = " ++ toString time ++ "\n"
  | none => "-- no counterexample found with bound 100\n"

open Checker

/-- The answer of a run: of two completions, at seven and at nine, the later one is reported as long
as the claim admits it. -/
def reluctantAnswer (path : String) (tree : Tree) : BmcAnswer :=
  let claims (known : Option Time) : Bool :=
    (tree.readText path).toOption.any (· = claimModel "MODULE main" (loneTarget.claimBefore known))
  let time := if claims none then some 9 else if claims (some 9) then some 7 else none
  ⟨(outputAt time).toUTF8, some (.ofParts 1 0)⟩

/-- A model checker that reports the earlier of two completions only if it has to. -/
def reluctantBackend : Backend Unit :=
  { sevenBackend with runBmc := fun path _ _ s => .ok (reluctantAnswer path s.1) s }

theorem ends_reluctantBackend_runBmc {path : String} {n : Nat} {timeout : Duration}
    {s s' : Tree × Unit} {r : Except SolverError BmcAnswer}
    (h : Ends (reluctantBackend.runBmc path n timeout) s r s') :
    r = .ok (reluctantAnswer path s.1) ∧ s' = s := by
  have hends : Ends (reluctantBackend.runBmc path n timeout) s (.ok (reluctantAnswer path s.1)) s :=
    rfl
  exact h.unique hends

theorem complete_reluctantBackend :
    Complete reluctantBackend "." (sevenChecker 4.0).options.bmc "MODULE main" loneTarget
      {7, 9} := by
  intro known timeout s hknown hread
  refine ⟨reluctantAnswer _ s.1, s, ?_, rfl⟩
  unfold reluctantAnswer
  rw [hread]
  cases known with
  | none =>
    have hlater : 9 ∈ ({7, 9} : Set Time) := by simp
    refine .refuted ?_ hlater (by simp)
    decide +kernel
  | some known =>
    rcases hknown known rfl with rfl | rfl
    · refine .unrefuted (by decide +kernel) ?_
      rintro time (rfl | rfl)
      · exact ⟨7, rfl, by decide⟩
      · exact ⟨7, rfl, by decide⟩
    · have hearlier : 7 ∈ ({7, 9} : Set Time) := by simp
      refine .refuted ?_ hearlier ?_
      · decide +kernel
      · rintro k ⟨⟩
        decide

theorem extensible_reluctantBackend :
    Extensible reluctantBackend (sevenChecker 4.0).options.bmc := by
  intro path n timeout s answer s' elapsed hrun helapsed
  obtain rfl := Except.ok.inj (ends_reluctantBackend_runBmc hrun).1
  obtain rfl := Option.some.inj helapsed
  exact extensible_sevenBackend path n timeout s (sevenAnswer path s.1) s _ rfl rfl

/-- Though the later completion is reported first, the search ends with the earlier one. -/
theorem search_earliest_seven :
    Complete reluctantBackend "." (sevenChecker 4.0).options.bmc "MODULE main" loneTarget {7, 9} ∧
      Extensible reluctantBackend (sevenChecker 4.0).options.bmc ∧
        ∃ r w', Ends (search reluctantBackend "." (sevenChecker 4.0).options.bmc "MODULE main"
            loneTarget) ⟨.empty, [], (), []⟩ r w' ∧
          ∃ found, r = .ok found ∧ found.meets loneTarget.deadline = false ∧
            found.finalTime = some 7 := by
  obtain ⟨found, w', h, hmissed⟩ := exists_ends_ok_of_endsIn
    (search reluctantBackend "." (sevenChecker 4.0).options.bmc "MODULE main" loneTarget)
    ⟨.empty, [], (), []⟩ (fun found => !found.meets loneTarget.deadline) (by decide +kernel)
  rw [Bool.not_eq_true'] at hmissed
  obtain ⟨_, ⟨⟩, -, -, hleast⟩ :=
    search_earliest complete_reluctantBackend extensible_reluctantBackend h (by simp)
  obtain ⟨first, hfirst, hfinal⟩ := hleast hmissed ⟨7, by simp⟩
  have hseven : IsLeast ({7, 9} : Set Time) 7 := ⟨by simp, by rintro time (rfl | rfl) <;> decide⟩
  exact ⟨complete_reluctantBackend, extensible_reluctantBackend, _, w', h, found, rfl, hmissed,
    hfinal.trans (congrArg some (hfirst.unique hseven))⟩

/-- A search breaks off with a fault. -/
def breaksOff : Except (Stop CheckError) BmcSearch → Bool
  | .error (.fault _) => true
  | _ => false

/-- With a timeout factor that makes no duration out of a second, a search breaks off although the
model checker is complete for the one time at which the target can be completed. -/
theorem search_breaks_off :
    Complete sevenBackend "." (sevenChecker 1e20).options.bmc "MODULE main" loneTarget {7} ∧
      ∃ w' f, Ends (search sevenBackend "." (sevenChecker 1e20).options.bmc "MODULE main"
        loneTarget) ⟨.empty, [], (), []⟩ (.error (.fault f)) w' := by
  refine ⟨complete_sevenBackend 1e20, ?_⟩
  obtain ⟨r, w', hends, hr⟩ := exists_ends_of_endsIn
    (search sevenBackend "." (sevenChecker 1e20).options.bmc "MODULE main" loneTarget)
    ⟨.empty, [], (), []⟩ breaksOff (by decide +kernel)
  unfold breaksOff at hr
  split at hr
  · exact ⟨w', _, hends⟩
  · simp at hr

end BmcSearch

end Punctual
