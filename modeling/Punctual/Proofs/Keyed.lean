import Mathlib.Data.List.Basic
import Mathlib.Data.List.Nodup
import Punctual.Json.Value

/-!
# Lists with keys

Of the elements of a list that have the same key, the first can be picked (`firstOfEach`). A list of
entries in which every key occurs once is told by its keys and what is found for them
(`entries_eq_of_nodup`).
-/

namespace Punctual

/-! ## The first element for each key -/

section FirstOfEach

variable {α κ : Type} [DecidableEq κ] {key : α → κ} {as : List α}

/-- The elements of a list with one element for each key, the first of those that have it. -/
def firstOfEach (key : α → κ) : List α → List α
  | [] => []
  | a :: as => a :: (firstOfEach key as).filter (key · ≠ key a)

theorem mem_of_mem_firstOfEach {as : List α} {a : α} (h : a ∈ firstOfEach key as) : a ∈ as := by
  induction as with
  | nil => exact h
  | cons b as ih =>
      rcases List.mem_cons.1 h with rfl | htail
      · exact List.mem_cons_self
      · exact List.mem_cons_of_mem _ (ih (List.mem_of_mem_filter htail))

/-- A search that looks at keys only finds the same element. -/
theorem find?_firstOfEach {p : α → Bool} (hp : ∀ a b, key a = key b → p a = p b) (as : List α) :
    (firstOfEach key as).find? p = as.find? p := by
  induction as with
  | nil => rfl
  | cons a as ih =>
      rw [firstOfEach, List.find?_cons, List.find?_cons]
      cases ha : p a with
      | true => rfl
      | false =>
          have hsame : (fun b => decide (decide (key b ≠ key a) = true ∧ p b = true)) = p := by
            funext b
            by_cases hb : key b = key a
            · simp [hb, hp b a hb, ha]
            · simp [hb]
          dsimp only
          rw [List.find?_filter, hsame, ih]

theorem mem_map_firstOfEach {as : List α} {k : κ} :
    k ∈ (firstOfEach key as).map key ↔ ∃ a ∈ as, key a = k := by
  induction as with
  | nil => simp [firstOfEach]
  | cons a as ih =>
      have hrest : k ∈ ((firstOfEach key as).filter (key · ≠ key a)).map key ↔
          k ≠ key a ∧ ∃ b ∈ as, key b = k := by
        rw [← ih, List.mem_map, List.mem_map]
        constructor
        · rintro ⟨b, hb, rfl⟩
          obtain ⟨hmem, hne⟩ := List.mem_filter.1 hb
          exact ⟨of_decide_eq_true hne, b, hmem, rfl⟩
        · rintro ⟨hne, b, hb, rfl⟩
          exact ⟨b, List.mem_filter.2 ⟨hb, decide_eq_true hne⟩, rfl⟩
      rw [firstOfEach, List.map_cons, List.mem_cons, hrest, List.exists_mem_cons_iff]
      by_cases hk : k = key a
      · simp [hk]
      · simp [hk, Ne.symm hk]

/-- Under each key there is exactly the first element that has it. -/
theorem filter_firstOfEach (as : List α) (k : κ) :
    (firstOfEach key as).filter (key · = k) = (as.find? (key · = k)).toList := by
  induction as with
  | nil => rfl
  | cons a as ih =>
      rw [firstOfEach, List.filter_cons, List.filter_filter]
      by_cases hk : key a = k
      · simp [hk]
      · have hsame : ∀ b ∈ firstOfEach key as,
            (decide (key b = k) && decide (key b ≠ key a)) = decide (key b = k) := by
          intro b _
          by_cases hb : key b = k
          · simp [hb, Ne.symm hk]
          · simp [hb]
        rw [List.filter_congr hsame, ih]
        simp [hk]

/-- A further element is dropped if its key was there before. -/
theorem firstOfEach_concat (as : List α) (a : α) :
    firstOfEach key (as ++ [a]) =
      if as.any (key · = key a) then firstOfEach key as else firstOfEach key as ++ [a] := by
  induction as with
  | nil => simp [firstOfEach]
  | cons b as ih =>
      rw [List.cons_append, firstOfEach, ih, firstOfEach, List.any_cons]
      by_cases hb : key b = key a
      · have hdropped : ([a] : List α).filter (key · ≠ key b) = [] := by simp [hb]
        simp only [hb, decide_true, Bool.true_or, if_true]
        split
        · rfl
        · rw [List.filter_append, ← hb, hdropped, List.append_nil]
      · have hkept : ([a] : List α).filter (key · ≠ key b) = [a] := by simp [Ne.symm hb]
        simp only [hb, decide_false, Bool.false_or]
        split
        · rfl
        · rw [List.filter_append, hkept, List.cons_append]

theorem nodup_map_firstOfEach (as : List α) : ((firstOfEach key as).map key).Nodup := by
  induction as with
  | nil => exact List.nodup_nil
  | cons a as ih =>
      refine List.nodup_cons.2 ⟨fun hmem => ?_, ih.sublist (List.filter_sublist.map key)⟩
      obtain ⟨b, hb, hkey⟩ := List.mem_map.1 hmem
      simpa [hkey] using (List.mem_filter.1 hb).2

/-- Elements with different keys stay as they are. -/
theorem firstOfEach_of_nodup (h : (as.map key).Nodup) : firstOfEach key as = as := by
  induction as with
  | nil => rfl
  | cons a as ih =>
      obtain ⟨hnew, hrest⟩ := List.nodup_cons.1 h
      rw [firstOfEach, ih hrest, List.filter_eq_self.2]
      intro b hb
      have hne : key b ≠ key a := fun hkey => hnew (hkey ▸ List.mem_map_of_mem hb)
      simpa using hne

end FirstOfEach

/-! ## Entries -/

section Entries

variable {κ α : Type} [DecidableEq κ] {entries : List (κ × α)}

/-- Where every key occurs once, its entry is found. -/
theorem find?_of_mem_of_nodup {k : κ} {a : α} (hnodup : (entries.map Prod.fst).Nodup)
    (hmem : (k, a) ∈ entries) : find? k entries = some a := by
  induction entries with
  | nil => simp at hmem
  | cons e rest ih =>
      obtain ⟨l, b⟩ := e
      rw [List.map_cons, List.nodup_cons] at hnodup
      rcases List.mem_cons.1 hmem with heq | hrest
      · obtain ⟨rfl, rfl⟩ := Prod.mk.inj heq
        simp [find?]
      · have hne : l ≠ k := by
          rintro rfl
          exact hnodup.1 (List.mem_map.2 ⟨_, hrest, rfl⟩)
        rw [find?, if_neg hne]
        exact ih hnodup.2 hrest

/-- Entries with different keys are their keys with what is found for them. -/
theorem entries_eq_of_nodup (h : (entries.map Prod.fst).Nodup) (other : α) :
    entries = (entries.map Prod.fst).map fun k => (k, (find? k entries).getD other) := by
  rw [List.map_map]
  refine (List.map_id _).symm.trans (List.map_congr_left fun e he => ?_)
  rw [Function.comp_apply, find?_of_mem_of_nodup h he]
  rfl

/-- Where the entries have the first key of each element, so have they when a further element sets
its entry. -/
theorem map_fst_upsert_firstOfEach {β : Type} {key : β → κ} {as : List β}
    (h : entries.map Prod.fst = (firstOfEach key as).map key) (a : β) (value : α) :
    (upsert (key a) value entries).map Prod.fst = (firstOfEach key (as ++ [a])).map key := by
  have hknown : key a ∈ entries.map Prod.fst ↔ as.any fun b => decide (key b = key a) := by
    rw [h, mem_map_firstOfEach, List.any_eq_true]
    simp only [decide_eq_true_eq]
  rw [map_fst_upsert, firstOfEach_concat]
  by_cases hany : as.any fun b => decide (key b = key a)
  · rw [if_pos (hknown.2 hany), if_pos hany, h]
  · rw [if_neg (fun hmem => hany (hknown.1 hmem)), if_neg hany, h, List.map_append]
    rfl

end Entries

end Punctual
