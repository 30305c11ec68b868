import Mathlib.Tactic.Common
import Punctual.Fault

/-!
# How actions end

An action of a check ends with a value, an error or a fault, and always leaves a state behind. The
relation `Ends` speaks about all endings at once, so that one statement about an action covers the
runs that break off as well as those that come to a result.

The lemmas of this module open an action at its outermost step. They are the only place where the
state monad itself is unfolded.
-/

namespace Punctual

section Computation

variable {ε α β : Type} {x : Except ε α} {f : α → Except ε β} {e : ε} {a b : α} {c : β}

theorem except_bind_eq_ok : (x >>= f) = .ok c ↔ ∃ a, x = .ok a ∧ f a = .ok c := by
  cases x <;> simp [bind, Except.bind]

@[simp] theorem except_throw_ne_ok : (throw e : Except ε α) ≠ .ok a := by
  simp [throw, throwThe, MonadExceptOf.throw]

@[simp] theorem except_pure_eq_ok : (pure a : Except ε α) = .ok b ↔ a = b := by
  simp [pure, Except.pure]

end Computation

/-- An action, begun in the state `s`, ends with a result in the state `s'`. -/
def Ends {ε σ α : Type} (act : EStateM ε σ α) (s : σ) (r : Except ε α) (s' : σ) : Prop :=
  match r with
  | .ok a => act s = .ok a s'
  | .error e => act s = .error e s'

section State

variable {ε σ α β : Type} {act : EStateM ε σ α} {f : α → EStateM ε σ β} {s s' : σ}

theorem exists_ends (act : EStateM ε σ α) (s : σ) : ∃ r s', Ends act s r s' := by
  cases h : act s with
  | ok a s' => exact ⟨.ok a, s', h⟩
  | error e s' => exact ⟨.error e, s', h⟩

/-- The action ends with a result that passes a test. -/
def endsIn (act : EStateM ε σ α) (s : σ) (p : Except ε α → Bool) : Bool :=
  match act s with
  | .ok a _ => p (.ok a)
  | .error e _ => p (.error e)

theorem exists_ends_of_endsIn (act : EStateM ε σ α) (s : σ) (p : Except ε α → Bool)
    (h : endsIn act s p) : ∃ r s', Ends act s r s' ∧ p r := by
  obtain ⟨r, s', hends⟩ := exists_ends act s
  refine ⟨r, s', hends, ?_⟩
  cases r <;> simpa [endsIn, show act s = _ from hends] using h

/-- A run that ends with a value of some kind. -/
theorem exists_ends_ok_of_endsIn (act : EStateM ε σ α) (s : σ) (p : α → Bool)
    (h : endsIn act s fun r => r.toOption.any p) : ∃ a s', Ends act s (.ok a) s' ∧ p a := by
  obtain ⟨r, s', hends, hr⟩ := exists_ends_of_endsIn act s _ h
  cases r with
  | ok a => exact ⟨a, s', hends, by simpa [Except.toOption] using hr⟩
  | error e => simp [Except.toOption] at hr

theorem Ends.unique {r₁ r₂ : Except ε α} {s₁ s₂ : σ}
    (h₁ : Ends act s r₁ s₁) (h₂ : Ends act s r₂ s₂) : r₁ = r₂ ∧ s₁ = s₂ := by
  cases r₁ with
  | ok a =>
      cases r₂ with
      | ok b => simpa using h₁.symm.trans h₂
      | error e => exact absurd (h₁.symm.trans h₂) (by simp)
  | error e =>
      cases r₂ with
      | ok b => exact absurd (h₁.symm.trans h₂) (by simp)
      | error e' => simpa using h₁.symm.trans h₂

theorem ends_pure {a : α} {r : Except ε α} :
    Ends (pure a) s r s' ↔ r = .ok a ∧ s' = s := by
  cases r with
  | ok b => simp [Ends, pure, EStateM.pure, eq_comm]
  | error e => simp [Ends, pure, EStateM.pure]

theorem ends_pure_ok {a b : α} :
    Ends (pure a : EStateM ε σ α) s (.ok b) s' ↔ b = a ∧ s' = s := by
  rw [ends_pure, Except.ok.injEq]

theorem ends_throw {e : ε} {r : Except ε α} :
    Ends (throw e) s r s' ↔ r = .error e ∧ s' = s := by
  have hthrow : (throw e : EStateM ε σ α) s = .error e s := rfl
  cases r with
  | ok b => simp [Ends, hthrow]
  | error e' => simp [Ends, hthrow, eq_comm]

/-- A sequence ends where its second part ends, or where its first part breaks off. -/
theorem ends_bind {r : Except ε β} :
    Ends (act >>= f) s r s' ↔
      (∃ a m, Ends act s (.ok a) m ∧ Ends (f a) m r s') ∨
        ∃ e, r = .error e ∧ Ends act s (.error e) s' := by
  cases h : act s with
  | ok a m =>
      cases r <;> simp [Ends, bind, EStateM.bind, h]
  | error e m =>
      cases r <;> simp [Ends, bind, EStateM.bind, h, eq_comm]

theorem ends_bind_ok {b : β} :
    Ends (act >>= f) s (.ok b) s' ↔ ∃ a m, Ends act s (.ok a) m ∧ Ends (f a) m (.ok b) s' := by
  simp [ends_bind]

theorem ends_bind_error {e : ε} :
    Ends (act >>= f) s (.error e) s' ↔
      (∃ a m, Ends act s (.ok a) m ∧ Ends (f a) m (.error e) s') ∨ Ends act s (.error e) s' := by
  simp [ends_bind]

/-- An action whose value is only passed through a function ends where it would end itself. -/
theorem ends_bind_pure {g : α → β} {r : Except ε β} :
    Ends (act >>= fun a => pure (g a)) s r s' ↔ ∃ r₀, Ends act s r₀ s' ∧ r = r₀.map g := by
  rw [ends_bind]
  constructor
  · rintro (⟨a, m, hact, hlast⟩ | ⟨e, rfl, hact⟩)
    · obtain ⟨rfl, rfl⟩ := ends_pure.1 hlast
      exact ⟨.ok a, hact, rfl⟩
    · exact ⟨.error e, hact, rfl⟩
  · rintro ⟨r₀, hact, rfl⟩
    cases r₀ with
    | ok a => exact .inl ⟨a, s', hact, ends_pure.2 ⟨rfl, rfl⟩⟩
    | error e => exact .inr ⟨e, rfl, hact⟩

theorem ends_modify {g : σ → σ} {r : Except ε PUnit} :
    Ends (modify g) s r s' ↔ r = .ok ⟨⟩ ∧ s' = g s := by
  have hmodify : (modify g : EStateM ε σ PUnit) s = .ok ⟨⟩ (g s) := rfl
  cases r with
  | ok b => simp [Ends, hmodify, eq_comm]
  | error e => simp [Ends, hmodify]

theorem ends_modify_bind {g : σ → σ} {f : PUnit → EStateM ε σ β} {r : Except ε β} :
    Ends (modify g >>= f) s r s' ↔ Ends (f ⟨⟩) (g s) r s' := by
  rw [ends_bind]
  constructor
  · rintro (⟨⟨⟩, m, hfirst, hrest⟩ | ⟨e, -, hfirst⟩)
    · obtain ⟨-, rfl⟩ := ends_modify.1 hfirst
      exact hrest
    · exact absurd (ends_modify.1 hfirst).1 (by simp)
  · intro h
    exact .inl ⟨⟨⟩, g s, ends_modify.2 ⟨rfl, rfl⟩, h⟩

theorem ends_get_bind {f : σ → EStateM ε σ β} {r : Except ε β} :
    Ends (get >>= f) s r s' ↔ Ends (f s) s r s' := by
  cases r <;> rfl

/-- What every step of a loop preserves holds after it. -/
theorem forM_preserves {P : σ → Prop} {as : List α} {g : α → EStateM ε σ PUnit}
    {r : Except ε PUnit} (h : Ends (as.forM g) s r s') (hs : P s)
    (hstep : ∀ a ∈ as, ∀ m r m', P m → Ends (g a) m r m' → P m') : P s' := by
  induction as generalizing s with
  | nil =>
      rw [(ends_pure.1 h).2]
      exact hs
  | cons a as ih =>
      -- `(a :: as).forM g` is `g a >>= fun _ => as.forM g` by definition
      rcases ends_bind.1 h with ⟨⟨⟩, m, hfirst, hrest⟩ | ⟨e, -, hfirst⟩
      · have hm := hstep a (by simp) _ _ _ hs hfirst
        exact ih hrest hm fun b hb => hstep b (List.mem_cons_of_mem _ hb)
      · exact hstep a (by simp) _ _ _ hs hfirst

/-- A loop that does not break off builds up what its steps add. The property speaks of the elements
that are done, in order. -/
theorem forM_builds {P : List α → σ → Prop} {as : List α} {g : α → EStateM ε σ PUnit}
    (h : Ends (as.forM g) s (.ok ⟨⟩) s') (hs : P [] s)
    (hstep : ∀ done, ∀ a ∈ as, ∀ m m', P done m → Ends (g a) m (.ok ⟨⟩) m' → P (done ++ [a]) m') :
    P as s' := by
  have hrest : ∀ rest done s, (∀ a ∈ rest, a ∈ as) → P done s →
      Ends (rest.forM g) s (.ok ⟨⟩) s' → P (done ++ rest) s' := by
    intro rest
    induction rest with
    | nil =>
        intro done s _ hdone hends
        rw [(ends_pure.1 hends).2, List.append_nil]
        exact hdone
    | cons a rest ih =>
        intro done s hmem hdone hends
        obtain ⟨⟨⟩, m, hfirst, htail⟩ := ends_bind_ok.1 hends
        have hmore := hstep done a (hmem a List.mem_cons_self) s m hdone hfirst
        rw [List.append_cons]
        exact ih _ m (fun b hb => hmem b (List.mem_cons_of_mem _ hb)) hmore htail
  exact hrest as [] s (fun _ => id) hs h

/-- A loop does not break off if none of its steps ever does. -/
theorem forM_succeeds {as : List α} {g : α → EStateM ε σ PUnit}
    (h : ∀ a ∈ as, ∀ m, ∃ m', Ends (g a) m (.ok ⟨⟩) m') (s : σ) :
    ∃ s', Ends (as.forM g) s (.ok ⟨⟩) s' := by
  induction as generalizing s with
  | nil => exact ⟨s, rfl⟩
  | cons a as ih =>
      obtain ⟨m, hfirst⟩ := h a List.mem_cons_self s
      obtain ⟨s', hrest⟩ := ih (fun b hb => h b (List.mem_cons_of_mem _ hb)) m
      exact ⟨s', ends_bind_ok.2 ⟨⟨⟩, m, hfirst, hrest⟩⟩

/-- Every step of a loop that does not break off does not break off. -/
theorem forM_each {as : List α} {g : α → EStateM ε σ PUnit}
    (h : Ends (as.forM g) s (.ok ⟨⟩) s') : ∀ a ∈ as, ∃ m m', Ends (g a) m (.ok ⟨⟩) m' := by
  refine forM_builds (P := fun done _ => ∀ a ∈ done, ∃ m m', Ends (g a) m (.ok ⟨⟩) m') h
    (by simp) ?_
  intro done a _ m m' hdone hends
  exact List.forall_mem_append.2 ⟨hdone, List.forall_mem_singleton.2 ⟨m, m', hends⟩⟩

/-- What one step of a loop achieves and all steps preserve holds after it, if it does not break
off. -/
theorem forM_achieves {P : σ → Prop} {as : List α} {g : α → EStateM ε σ PUnit} {a : α}
    (h : Ends (as.forM g) s (.ok ⟨⟩) s') (ha : a ∈ as)
    (hachieves : ∀ m m', Ends (g a) m (.ok ⟨⟩) m' → P m')
    (hstep : ∀ b ∈ as, ∀ m r m', P m → Ends (g b) m r m' → P m') : P s' := by
  induction as generalizing s with
  | nil => simp at ha
  | cons b as ih =>
      rcases ends_bind.1 h with ⟨⟨⟩, m, hfirst, hrest⟩ | ⟨e, he, -⟩
      · have htail : ∀ b ∈ as, ∀ m r m', P m → Ends (g b) m r m' → P m' :=
          fun b hb => hstep b (List.mem_cons_of_mem _ hb)
        rcases List.mem_cons.1 ha with rfl | hmem
        · exact forM_preserves hrest (hachieves _ _ hfirst) htail
        · exact ih hrest hmem htail
      · simp at he

end State

section Stop

variable {ε σ α : Type} {s s' : σ}

theorem ends_fail {e : ε} {r : Except (Stop ε) α} :
    Ends (Action.fail e : Action ε σ α) s r s' ↔ r = .error (.error e) ∧ s' = s :=
  ends_throw

theorem ends_ofFault_bind {β : Type} {x : Except Fault α} {f : α → Action ε σ β}
    {r : Except (Stop ε) β} :
    Ends (Action.ofFault x >>= f) s r s' ↔
      (∃ a, x = .ok a ∧ Ends (f a) s r s') ∨
        ∃ e, x = .error e ∧ r = .error (.fault e) ∧ s' = s := by
  cases x with
  | ok a => simp [Action.ofFault]
  | error e => simp [Action.ofFault, ends_throw, ends_bind]

theorem ends_ofFault_ok_bind {β : Type} {a : α} {f : α → Action ε σ β}
    {r : Except (Stop ε) β} :
    Ends (Action.ofFault (.ok a) >>= f) s r s' ↔ Ends (f a) s r s' := by
  simp [ends_ofFault_bind]

end Stop

end Punctual
