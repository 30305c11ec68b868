/-!
# Data values

The values that a data text can hold. An object keeps its members in order of first insertion, and
a name that is given twice keeps its first place and its last value.
-/

namespace Punctual

/-- Sets the entry of a key: an existing entry keeps its place, a new one goes to the end. -/
def upsert {κ α : Type} [DecidableEq κ] (key : κ) (value : α) : List (κ × α) → List (κ × α)
  | [] => [(key, value)]
  | (k, v) :: rest => if k = key then (k, value) :: rest else (k, v) :: upsert key value rest

def find? {κ α : Type} [DecidableEq κ] (key : κ) : List (κ × α) → Option α
  | [] => none
  | (k, v) :: rest => if k = key then some v else find? key rest

section Entries

variable {κ α : Type} [DecidableEq κ]

@[simp] theorem find?_upsert_self (key : κ) (value : α) (entries : List (κ × α)) :
    find? key (upsert key value entries) = some value := by
  induction entries with
  | nil => simp [upsert, find?]
  | cons e rest ih =>
    obtain ⟨k, v⟩ := e
    by_cases h : k = key <;> simp [upsert, find?, h, ih]

theorem find?_upsert_of_ne {key other : κ} (h : other ≠ key) (value : α)
    (entries : List (κ × α)) : find? other (upsert key value entries) = find? other entries := by
  induction entries with
  | nil => simp [upsert, find?, h.symm]
  | cons e rest ih =>
    obtain ⟨k, v⟩ := e
    by_cases hk : k = key
    · subst hk; simp [upsert, find?, h.symm]
    · simp only [upsert, hk, if_false, find?, ih]

/-- Setting an entry adds its key at the end unless the key is there already. -/
theorem map_fst_upsert (key : κ) (value : α) (entries : List (κ × α)) :
    (upsert key value entries).map Prod.fst =
      if key ∈ entries.map Prod.fst then entries.map Prod.fst
      else entries.map Prod.fst ++ [key] := by
  induction entries with
  | nil => simp [upsert]
  | cons e rest ih =>
    obtain ⟨k, v⟩ := e
    by_cases h : k = key
    · simp [upsert, h]
    · have h' : ¬ key = k := fun hk => h hk.symm
      simp only [upsert, h, if_false, List.map_cons, ih, List.mem_cons, h', false_or]
      split <;> simp

/-- A new key is added at the end. -/
theorem upsert_of_not_mem {key : κ} {entries : List (κ × α)} (h : key ∉ entries.map Prod.fst)
    (value : α) : upsert key value entries = entries ++ [(key, value)] := by
  induction entries with
  | nil => rfl
  | cons e rest ih =>
    obtain ⟨k, v⟩ := e
    rw [List.map_cons, List.mem_cons, not_or] at h
    rw [upsert, if_neg (Ne.symm h.1), ih h.2, List.cons_append]

/-- Setting an entry brings in no other one. -/
theorem mem_upsert {key : κ} {value : α} {entries : List (κ × α)} {e : κ × α}
    (h : e ∈ upsert key value entries) : e = (key, value) ∨ e ∈ entries := by
  induction entries with
  | nil => exact .inl (List.mem_singleton.1 h)
  | cons e' rest ih =>
    obtain ⟨k, v⟩ := e'
    rw [upsert] at h
    split at h
    · next hsame =>
      subst hsame
      exact (List.mem_cons.1 h).imp_right (List.mem_cons_of_mem _)
    · rcases List.mem_cons.1 h with rfl | h
      · exact .inr List.mem_cons_self
      · exact (ih h).imp_right (List.mem_cons_of_mem _)

end Entries

namespace Json

/-- A value of a data text. -/
inductive Value
  | null
  | bool (b : Bool)
  | int (n : Int)
  | float (x : Float)
  | text (s : String)
  | list (vs : List Value)
  | object (members : List (String × Value))

end Json

end Punctual
