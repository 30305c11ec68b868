import Punctual.Proofs.Check.Preparation

/-!
# Checks that run alike

Two worlds are alike if they differ in their logs only: their files, the model checker and the
exchanges with it are the same. Two actions run alike if, begun in worlds that are alike, they end in
worlds that are alike, either both with related values or both with the same stop. Nothing that a
check does depends on the log, so that an action that is made of the same steps runs like itself.
-/

namespace Punctual

variable {σ α β γ δ : Type}

/-- Two worlds that differ in their logs only. -/
structure World.Alike (w₁ w₂ : World σ) : Prop where
  tree : w₁.tree = w₂.tree
  solver : w₁.solver = w₂.solver
  exchanges : w₁.exchanges = w₂.exchanges

namespace World.Alike

variable {w₁ w₂ : World σ}

theorem refl (w : World σ) : w.Alike w :=
  ⟨rfl, rfl, rfl⟩

theorem logged (h : w₁.Alike w₂) (reports more : Log) :
    (w₁.logged reports).Alike (w₂.logged more) :=
  ⟨h.tree, h.solver, h.exchanges⟩

end World.Alike

/-- Two results that mean the same: related values, or the same reason to stop. -/
inductive ResultsAlike {ε : Type} (R : α → β → Prop) : Except ε α → Except ε β → Prop
  | ok {a : α} {b : β} (h : R a b) : ResultsAlike R (.ok a) (.ok b)
  | error (e : ε) : ResultsAlike R (.error e) (.error e)

namespace Check

/-- Begun in worlds alike, the two actions end alike. -/
def Alike (R : α → β → Prop) (act₁ : Check σ α) (act₂ : Check σ β) : Prop :=
  ∀ w₁ w₂, w₁.Alike w₂ → ∃ r₁ r₂ w₁' w₂', Ends act₁ w₁ r₁ w₁' ∧ Ends act₂ w₂ r₂ w₂' ∧
    ResultsAlike R r₁ r₂ ∧ w₁'.Alike w₂'

variable {R : α → β → Prop} {S : γ → δ → Prop}

/-! ## Sequences -/

theorem alike_pure {a : α} {b : β} (h : R a b) :
    Alike R (pure a : Check σ α) (pure b) := by
  intro w₁ w₂ hw
  exact ⟨.ok a, .ok b, w₁, w₂, ends_pure.2 ⟨rfl, rfl⟩, ends_pure.2 ⟨rfl, rfl⟩, .ok h, hw⟩

theorem alike_throw (stop : Stop CheckError) :
    Alike R (throw stop : Check σ α) (throw stop) := by
  intro w₁ w₂ hw
  exact ⟨.error stop, .error stop, w₁, w₂, ends_throw.2 ⟨rfl, rfl⟩, ends_throw.2 ⟨rfl, rfl⟩,
    .error stop, hw⟩

theorem alike_fail (e : CheckError) : Alike R (Action.fail e : Check σ α) (Action.fail e) :=
  alike_throw (.error e)

theorem Alike.bind {act₁ : Check σ α} {act₂ : Check σ β} {f₁ : α → Check σ γ}
    {f₂ : β → Check σ δ} (hact : Alike R act₁ act₂)
    (hf : ∀ a b, R a b → Alike S (f₁ a) (f₂ b)) : Alike S (act₁ >>= f₁) (act₂ >>= f₂) := by
  intro w₁ w₂ hw
  obtain ⟨r₁, r₂, m₁, m₂, hends₁, hends₂, hresults, hm⟩ := hact w₁ w₂ hw
  cases hresults with
  | @ok a b hab =>
      obtain ⟨r₁, r₂, w₁', w₂', hrest₁, hrest₂, hlast, hw'⟩ := hf a b hab m₁ m₂ hm
      refine ⟨r₁, r₂, w₁', w₂', ?_, ?_, hlast, hw'⟩
      · exact ends_bind.2 (.inl ⟨a, m₁, hends₁, hrest₁⟩)
      · exact ends_bind.2 (.inl ⟨b, m₂, hends₂, hrest₂⟩)
  | error stop =>
      refine ⟨.error stop, .error stop, m₁, m₂, ?_, ?_, .error stop, hm⟩
      · exact ends_bind.2 (.inr ⟨stop, rfl, hends₁⟩)
      · exact ends_bind.2 (.inr ⟨stop, rfl, hends₂⟩)

theorem Alike.bind_same {act₁ act₂ : Check σ α} {f₁ : α → Check σ γ} {f₂ : α → Check σ δ}
    (hact : Alike (· = ·) act₁ act₂) (hf : ∀ a, Alike S (f₁ a) (f₂ a)) :
    Alike S (act₁ >>= f₁) (act₂ >>= f₂) := by
  refine hact.bind ?_
  rintro a _ rfl
  exact hf a

theorem alike_ofFault (x : Except Fault α) :
    Alike (· = ·) (Action.ofFault x : Check σ α) (Action.ofFault x) := by
  cases x with
  | ok a => exact alike_pure rfl
  | error f => exact alike_throw _

/-! ## Reports -/

theorem alike_modify {f g : World σ → World σ} (h : ∀ w₁ w₂, w₁.Alike w₂ → (f w₁).Alike (g w₂)) :
    Alike (· = ·) (modify f : Check σ PUnit) (modify g) := by
  intro w₁ w₂ hw
  exact ⟨.ok ⟨⟩, .ok ⟨⟩, f w₁, g w₂, ends_modify.2 ⟨rfl, rfl⟩, ends_modify.2 ⟨rfl, rfl⟩, .ok rfl,
    h w₁ w₂ hw⟩

theorem alike_report (level level' : Level) (text text' : String) :
    Alike (· = ·) (report level text : Check σ Unit) (report level' text') :=
  alike_modify fun _ _ hw => hw.logged [⟨level, text⟩] [⟨level', text'⟩]

theorem alike_info (text : String) :
    Alike (· = ·) (info text : Check σ Unit) (info text) :=
  alike_report .info .info text text

theorem alike_warn (text : String) :
    Alike (· = ·) (warn text : Check σ Unit) (warn text) :=
  alike_report .warn .warn text text

theorem ends_warnings (texts : List String) (w : World σ) :
    ∃ reports, Ends (texts.forM warn) w (.ok ⟨⟩) (w.logged reports) := by
  induction texts generalizing w with
  | nil => exact ⟨[], ends_pure.2 ⟨rfl, w.logged_nil⟩⟩
  | cons text texts ih =>
      obtain ⟨reports, hrest⟩ := ih (w.logged [⟨.warn, text⟩])
      rw [World.logged_logged] at hrest
      exact ⟨_, ends_warn_bind.2 hrest⟩

/-- However many warnings are reported on either side, they make no difference. -/
theorem alike_warnings (texts texts' : List String) :
    Alike (· = ·) (texts.forM warn : Check σ PUnit) (texts'.forM warn) := by
  intro w₁ w₂ hw
  obtain ⟨reports, hends₁⟩ := ends_warnings texts w₁
  obtain ⟨more, hends₂⟩ := ends_warnings texts' w₂
  exact ⟨_, _, _, _, hends₁, hends₂, .ok rfl, hw.logged reports more⟩

theorem alike_warn_if {p q : Prop} [Decidable p] [Decidable q] {text text' : String}
    {act₁ : Check σ α} {act₂ : Check σ β} (h : Alike R act₁ act₂) :
    Alike R (if p then warn text >>= fun _ => act₁ else act₁)
      (if q then warn text' >>= fun _ => act₂ else act₂) := by
  -- one warning or none is a list of warnings
  have hwarned (p : Prop) [Decidable p] (text : String) {γ : Type} (act : Check σ γ) :
      (if p then warn text >>= fun _ => act else act) =
        (if p then [text] else []).forM warn >>= fun _ => act := by
    by_cases hp : p
    · rw [if_pos hp, if_pos hp]
      rfl
    · rw [if_neg hp, if_neg hp]
      rfl
  rw [hwarned p, hwarned q]
  exact (alike_warnings _ _).bind_same fun _ => h

/-! ## Files, combiners and model checkers -/

theorem resultsAlike_self {ε : Type} (r : Except ε α) : ResultsAlike (· = ·) r r := by
  cases r with
  | ok a => exact .ok rfl
  | error e => exact .error e

theorem alike_write (dir : String) (a : Artifact) (text : String) :
    Alike (· = ·) (Artifact.write dir a text : Check σ String) (Artifact.write dir a text) := by
  intro w₁ w₂ hw
  cases hstore : Artifact.store w₁.tree dir a text with
  | ok tree =>
      have hstore₂ : Artifact.store w₂.tree dir a text = .ok tree := hw.tree ▸ hstore
      exact ⟨_, _, _, _, write_ends_ok hstore, write_ends_ok hstore₂, .ok rfl,
        ⟨rfl, hw.solver, hw.exchanges⟩⟩
  | error e =>
      have hstore₂ : Artifact.store w₂.tree dir a text = .error e := hw.tree ▸ hstore
      exact ⟨_, _, _, _, write_ends_error hstore, write_ends_error hstore₂, .error _, hw⟩

theorem alike_exchange (act : SolverAction σ α) (entry : Except SolverError α → Exchange) :
    Alike (· = ·) (exchange act entry) (exchange act entry) := by
  intro w₁ w₂ hw
  -- a model checker sees files and its own state only, which are the same
  obtain ⟨answer, ⟨tree, solver⟩, hanswer⟩ := exists_ends act (w₁.tree, w₁.solver)
  have hanswer₂ : Ends act (w₂.tree, w₂.solver) answer (tree, solver) := by
    rw [← hw.tree, ← hw.solver]
    exact hanswer
  refine ⟨_, _, _, _, exchange_ends entry hanswer, exchange_ends entry hanswer₂,
    resultsAlike_self _, rfl, rfl, ?_⟩
  exact congrArg (· ++ [entry answer]) hw.exchanges

theorem alike_combined (act : Tree → σ → Combination σ) :
    Alike (· = ·) (combined act) (combined act) := by
  intro w₁ w₂ hw
  have hends₂ := combined_ends act w₂
  rw [← hw.tree, ← hw.solver] at hends₂
  exact ⟨_, _, _, _, combined_ends act w₁, hends₂, resultsAlike_self _, rfl, rfl, hw.exchanges⟩

/-! ## Searches for a completion -/

section Search

open BmcSearch

variable (backend : Backend σ) (dir : String) (options : BmcOptions) (model : String)
  (target : Target)

theorem alike_run (claim : String) (timeout : Duration) :
    Alike (· = ·) (run backend dir options model claim timeout)
      (run backend dir options model claim timeout) := by
  refine (alike_write dir .bmc _).bind_same fun path => ?_
  refine (alike_exchange _ _).bind_same fun answer => ?_
  dsimp only
  split
  · next reports _ =>
      refine (alike_modify fun w₁ w₂ hw => ?_).bind_same fun _ => alike_pure rfl
      exact ⟨hw.tree, hw.solver, hw.exchanges⟩
  · exact alike_pure rfl

theorem alike_acceptReported (s : BmcSearch) (time : Time) (trace : List String)
    (elapsed : Duration) :
    Alike (· = ·) (s.acceptReported time trace elapsed : Check σ BmcSearch)
      (s.acceptReported time trace elapsed) :=
  (alike_info _).bind_same fun _ => alike_pure rfl

theorem alike_searchBefore (known : Time) (s : BmcSearch) :
    Alike (· = ·) (searchBefore backend dir options model target known s)
      (searchBefore backend dir options model target known s) := by
  fun_induction searchBefore backend dir options model target known s
  case case1 known s ih =>
    refine (alike_run backend dir options model _ _).bind_same fun result => ?_
    cases result with
    | inconclusive reports => exact alike_pure rfl
    | refuted time trace elapsed =>
        dsimp only
        by_cases hlate : known ≤ time
        · rw [dif_pos hlate]
          exact (alike_warn _).bind_same fun _ => alike_pure rfl
        · rw [dif_neg hlate]
          by_cases hmeets : time ≤ target.deadline
          · rw [dif_pos hmeets]
            exact alike_acceptReported s time trace elapsed
          · rw [dif_neg hmeets]
            refine (alike_acceptReported s time trace elapsed).bind_same fun s' => ?_
            exact (alike_ofFault _).bind_same fun next => ih time hlate hmeets next

theorem alike_search :
    Alike (· = ·) (search backend dir options model target)
      (search backend dir options model target) := by
  refine (alike_run backend dir options model _ _).bind_same fun result => ?_
  cases result with
  | inconclusive reports => exact alike_pure rfl
  | refuted time trace elapsed =>
      refine (alike_acceptReported _ time trace elapsed).bind_same fun s => ?_
      by_cases hmeets : time ≤ target.deadline
      · rw [if_pos hmeets]
        exact alike_pure rfl
      · rw [if_neg hmeets]
        refine (alike_ofFault _).bind_same fun next => ?_
        exact alike_searchBefore backend dir options model target time next

end Search

/-! ## Searches for a deadline -/

section Delay

variable {probe₁ probe₂ : Time → Check σ Bool}
  (hprobe : ∀ t, Alike (· = ·) (probe₁ t) (probe₂ t))

include hprobe in
theorem alike_doublingFrom (start horizonEnd : Time) (k : Nat) (b : DelayBounds) :
    Alike (· = ·) (doublingFrom probe₁ start horizonEnd k b)
      (doublingFrom probe₂ start horizonEnd k b) := by
  fun_induction doublingFrom probe₁ start horizonEnd k b
  case case1 k b t ih =>
    rw [doublingFrom.eq_def probe₂]
    refine (hprobe t).bind_same fun feasible => ?_
    cases feasible with
    | true => exact alike_pure rfl
    | false =>
        simp only [Bool.false_eq_true, if_false]
        by_cases hend : relaxedDeadline start horizonEnd k = horizonEnd
        · rw [dif_pos hend, dif_pos hend]
          exact alike_pure rfl
        · rw [dif_neg hend, dif_neg hend]
          exact ih hend

include hprobe in
theorem alike_halveGap (deadline lower upper : Time) :
    Alike (· = ·) (halveGap probe₁ deadline lower upper)
      (halveGap probe₂ deadline lower upper) := by
  -- both searches take the same branch, since the bracket does not depend on the probe
  fun_induction halveGap probe₁ deadline lower upper with
  | case1 lower upper f hgap =>
      rw [halveGap_of_error hgap]
      exact alike_throw _
  | case2 lower upper gap hgap hnarrow =>
      rw [halveGap_of_narrow hgap hnarrow]
      exact alike_pure rfl
  | case3 lower upper gap hgap hwide ihlower ihupper =>
      have hsecond : halveGap probe₂ deadline lower upper = _ := halveGap_of_wide hgap hwide
      rw [hsecond]
      refine (hprobe _).bind_same fun feasible => ?_
      cases feasible with
      | true => exact ihlower
      | false => exact ihupper

include hprobe in
theorem alike_exponentialSearch (horizonEnd : Time) (b : DelayBounds) :
    Alike (· = ·) (exponentialSearch probe₁ horizonEnd b)
      (exponentialSearch probe₂ horizonEnd b) := by
  unfold exponentialSearch
  by_cases hend : horizonEnd ≤ b.lower
  · rw [if_pos hend, if_pos hend]
    exact alike_pure rfl
  · rw [if_neg hend, if_neg hend]
    exact alike_doublingFrom hprobe _ _ _ _

include hprobe in
theorem alike_binarySearch (b : DelayBounds) :
    Alike (· = ·) (binarySearch probe₁ b) (binarySearch probe₂ b) := by
  unfold binarySearch
  cases b.upper with
  | none => exact alike_pure rfl
  | some upper => exact alike_halveGap hprobe _ _ _

end Delay

end Check

end Punctual
