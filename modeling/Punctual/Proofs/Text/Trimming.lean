import Mathlib.Data.List.DropRight
import Punctual.Text.Blank

/-!
# Trimmed texts

Trimming drops blanks at the ends of a text. A text is solid if there is none at its end: what is
joined to a solid text in front leaves it solid (`EndsSolid.append_left`), and it is what trimming
leaves as it is (`EndsSolid.trimEnd_eq`).
-/

namespace Punctual.Text

theorem dropEndWhile_eq (p : Char → Bool) (cs : List Char) :
    dropEndWhile p cs = cs.rdropWhile p := rfl

@[simp] theorem toList_trimStart (s : String) :
    (trimStart s).toList = s.toList.dropWhile isBlank := by
  rw [trimStart, String.toList_ofList]

@[simp] theorem toList_trimEnd (s : String) :
    (trimEnd s).toList = s.toList.rdropWhile isBlank := by
  rw [trimEnd, String.toList_ofList, dropEndWhile_eq]

theorem toList_trim (s : String) :
    (trim s).toList = (s.toList.dropWhile isBlank).rdropWhile isBlank := by
  rw [trim, toList_trimEnd, toList_trimStart]

/-- Trimming twice makes no difference. -/
@[simp] theorem trimEnd_trimEnd (s : String) : trimEnd (trimEnd s) = trimEnd s := by
  apply String.toList_injective
  rw [toList_trimEnd, toList_trimEnd, List.rdropWhile_idempotent]

/-! ## Solid ends -/

/-- The last character exists and is not blank. -/
def EndsSolid (cs : List Char) : Prop :=
  ∃ init c, cs = init ++ [c] ∧ isBlank c = false

theorem endsSolid_singleton {c : Char} (h : isBlank c = false) : EndsSolid [c] :=
  ⟨[], c, rfl, h⟩

theorem EndsSolid.ne_nil {cs : List Char} (h : EndsSolid cs) : cs ≠ [] := by
  obtain ⟨init, c, rfl, -⟩ := h
  simp

theorem EndsSolid.ne_empty {s : String} (h : EndsSolid s.toList) : s ≠ "" := by
  rintro rfl
  exact h.ne_nil rfl

theorem EndsSolid.append_left (cs : List Char) {ds : List Char} (h : EndsSolid ds) :
    EndsSolid (cs ++ ds) := by
  obtain ⟨init, c, rfl, hc⟩ := h
  exact ⟨cs ++ init, c, (List.append_assoc _ _ _).symm, hc⟩

theorem EndsSolid.getLast?_ne {cs : List Char} {c : Char} (h : EndsSolid cs) (hc : isBlank c) :
    cs.getLast? ≠ some c := by
  obtain ⟨init, d, rfl, hd⟩ := h
  rw [List.getLast?_concat]
  rintro ⟨⟩
  rw [hd] at hc
  exact Bool.false_ne_true hc

theorem EndsSolid.rdropWhile_eq {cs : List Char} (h : EndsSolid cs) :
    cs.rdropWhile isBlank = cs := by
  obtain ⟨init, c, rfl, hc⟩ := h
  exact List.rdropWhile_concat_neg _ _ _ (by simp [hc])

theorem EndsSolid.trimEnd_eq {s : String} (h : EndsSolid s.toList) : trimEnd s = s := by
  apply String.toList_injective
  rw [toList_trimEnd, h.rdropWhile_eq]

/-- What is solid is not touched where it stands in a text that is trimmed. -/
theorem EndsSolid.infix_rdropWhile {cs ds : List Char} (h : EndsSolid ds) (hpart : ds <:+: cs) :
    ds <:+: cs.rdropWhile isBlank := by
  obtain ⟨front, rest, rfl⟩ := hpart
  induction rest using List.reverseRecOn with
  | nil =>
      rw [List.append_nil, (h.append_left front).rdropWhile_eq]
      exact (List.suffix_append front ds).isInfix
  | append_singleton rest c ih =>
      rw [← List.append_assoc]
      by_cases hc : isBlank c
      · rw [List.rdropWhile_concat_pos _ _ _ hc]
        exact ih
      · rw [List.rdropWhile_concat_neg _ _ _ hc, List.append_assoc]
        exact List.infix_append front ds (rest ++ [c])

/-- Blanks behind a text are dropped. -/
theorem rdropWhile_append_blanks (cs : List Char) {bs : List Char}
    (h : ∀ b ∈ bs, isBlank b) : (cs ++ bs).rdropWhile isBlank = cs.rdropWhile isBlank := by
  induction bs using List.reverseRecOn with
  | nil => rw [List.append_nil]
  | append_singleton bs b ih =>
      rw [← List.append_assoc, List.rdropWhile_concat_pos _ _ _ (h b (by simp))]
      exact ih fun b' hb' => h b' (List.mem_append_left _ hb')

/-- Blanks behind a text stay behind it if its leading blanks are dropped. -/
theorem dropWhile_append_blanks (cs : List Char) {bs : List Char} (h : ∀ b ∈ bs, isBlank b) :
    ∃ bs', (∀ b ∈ bs', isBlank b) ∧
      (cs ++ bs).dropWhile isBlank = cs.dropWhile isBlank ++ bs' := by
  rw [List.dropWhile_append]
  split
  · next hempty =>
      refine ⟨[], by simp, ?_⟩
      rw [List.isEmpty_iff.1 hempty, List.append_nil, List.dropWhile_eq_nil_iff]
      exact h
  · exact ⟨bs, h, rfl⟩

theorem trim_append_blanks (cs : List Char) {bs : List Char} (h : ∀ b ∈ bs, isBlank b) :
    trim (.ofList (cs ++ bs)) = trim (.ofList cs) := by
  apply String.toList_injective
  obtain ⟨bs', hbs', heq⟩ := dropWhile_append_blanks cs h
  rw [toList_trim, toList_trim, String.toList_ofList, String.toList_ofList, heq,
    rdropWhile_append_blanks _ hbs']

/-- What trimming leaves of a text is empty or solid. -/
theorem endsSolid_rdropWhile {cs : List Char} (h : cs.rdropWhile isBlank ≠ []) :
    EndsSolid (cs.rdropWhile isBlank) := by
  have hlast := List.rdropWhile_last_not isBlank cs h
  exact ⟨_, _, (List.dropLast_append_getLast h).symm, by simpa using hlast⟩

theorem endsSolid_trim {s : String} (h : trim s ≠ "") : EndsSolid (trim s).toList := by
  rw [toList_trim]
  refine endsSolid_rdropWhile fun hnil => h ?_
  apply String.toList_injective
  rw [toList_trim, hnil]
  rfl

theorem EndsSolid.dropWhile {cs : List Char} (h : EndsSolid cs) :
    EndsSolid (cs.dropWhile isBlank) := by
  obtain ⟨init, c, rfl, hc⟩ := h
  have hlast : [c].dropWhile isBlank = [c] := List.dropWhile_cons_of_neg (by simp [hc])
  rw [List.dropWhile_append, hlast]
  split
  · exact endsSolid_singleton hc
  · exact (endsSolid_singleton hc).append_left _

/-- Of a solid text only the leading blanks are trimmed. -/
theorem EndsSolid.toList_trim {s : String} (h : EndsSolid s.toList) :
    (trim s).toList = s.toList.dropWhile isBlank := by
  rw [Text.toList_trim, h.dropWhile.rdropWhile_eq]

theorem EndsSolid.trim_ne_empty {s : String} (h : EndsSolid s.toList) : trim s ≠ "" := by
  rw [← String.toList_eq_nil_iff.ne, h.toList_trim]
  exact h.dropWhile.ne_nil

/-- A solid text is trimmed just if it does not begin with a blank. -/
theorem EndsSolid.trim_eq_self_iff {s : String} (h : EndsSolid s.toList) :
    trim s = s ↔ ∀ c ∈ s.toList.head?, isBlank c = false := by
  rw [← String.toList_inj, h.toList_trim, List.dropWhile_eq_self_iff]
  cases s.toList with
  | nil => simp
  | cons c cs => simp

/-- A text that neither begins nor ends with a blank is trimmed. -/
theorem trim_eq_self {s : String} {c : Char} {cs : List Char} (hhead : s.toList = c :: cs)
    (hc : isBlank c = false) (hsolid : EndsSolid s.toList) : trim s = s := by
  rw [hsolid.trim_eq_self_iff, hhead]
  rintro d ⟨⟩
  exact hc

end Punctual.Text
