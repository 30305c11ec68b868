import Punctual.Proofs.Text.Trimming
import Punctual.Text.Lines

/-!
# Lines of a text

The pieces of a text are what lies between its line feeds (`pieces_eq_splitOn`), so that they are
known for joined texts. If a text ends with a line feed, its lines are its pieces without carriage
returns (`lines_ended`), and a line that is added to it is one line more (`lines_ended_append`).
-/

namespace Punctual.Text

theorem pieces_eq_splitOn (cs : List Char) : pieces cs = cs.splitOn '\n' := by
  induction cs with
  | nil => rfl
  | cons c cs ih =>
      rw [List.splitOn_cons_eq_if_modifyHead, ← ih, pieces]
      by_cases hc : c = '\n'
      · simp [hc]
      · cases hpieces : pieces cs with
        | nil => exact absurd (ih.symm.trans hpieces) (List.splitOn_ne_nil _ _)
        | cons p ps => simp [hc]

theorem pieces_ne_nil (cs : List Char) : pieces cs ≠ [] := by
  rw [pieces_eq_splitOn]
  exact List.splitOn_ne_nil _ _

theorem pieces_append_newline (cs ds : List Char) :
    pieces (cs ++ '\n' :: ds) = pieces cs ++ pieces ds := by
  simp only [pieces_eq_splitOn, List.splitOn_append_cons_self]

theorem pieces_of_not_mem {cs : List Char} (h : '\n' ∉ cs) : pieces cs = [cs] := by
  rw [pieces_eq_splitOn, List.splitOn_eq_singleton h]

/-- A character other than a line feed makes the last piece longer. -/
theorem pieces_append_single (cs : List Char) {c : Char} (h : c ≠ '\n') :
    ∃ init last, pieces cs = init ++ [last] ∧ pieces (cs ++ [c]) = init ++ [last ++ [c]] := by
  induction cs with
  | nil => exact ⟨[], [], rfl, by rw [List.nil_append, pieces_of_not_mem (by simpa using h.symm)]; rfl⟩
  | cons d cs ih =>
      obtain ⟨init, last, hpieces, hmore⟩ := ih
      rw [List.cons_append, pieces, pieces, hpieces, hmore]
      by_cases hd : d = '\n'
      · exact ⟨[] :: init, last, by simp [hd], by simp [hd]⟩
      · cases init with
        | nil => exact ⟨[], d :: last, by simp [hd], by simp [hd]⟩
        | cons p ps => exact ⟨(d :: p) :: ps, last, by simp [hd], by simp [hd]⟩

/-- No piece holds a line feed. -/
theorem not_mem_of_mem_pieces {cs p : List Char} (h : p ∈ pieces cs) : '\n' ∉ p := by
  induction cs generalizing p with
  | nil =>
      obtain rfl : p = [] := by simpa [pieces] using h
      simp
  | cons c cs ih =>
      rw [pieces] at h
      by_cases hc : c = '\n'
      · rw [if_pos hc] at h
        rcases List.mem_cons.1 h with rfl | htail
        · simp
        · exact ih htail
      · rw [if_neg hc] at h
        cases hpieces : pieces cs with
        | nil => exact absurd hpieces (pieces_ne_nil cs)
        | cons q qs =>
            rw [hpieces] at h ih
            rcases List.mem_cons.1 h with rfl | htail
            · simpa [Ne.symm hc] using ih List.mem_cons_self
            · exact ih (List.mem_cons_of_mem _ htail)

/-- The pieces of joined lines are the lines. -/
theorem pieces_unlines {ls : List String} (hne : ls ≠ []) (h : ∀ l ∈ ls, '\n' ∉ l.toList) :
    pieces (unlines ls).toList = ls.map String.toList := by
  have hlists : (unlines ls).toList = ['\n'].intercalate (ls.map String.toList) :=
    String.toList_intercalate
  rw [pieces_eq_splitOn, hlists]
  refine List.splitOn_intercalate _ ?_ (by simpa using hne)
  intro p hp
  obtain ⟨l, hl, rfl⟩ := List.mem_map.1 hp
  exact h l hl

theorem unlines_concat {ls : List String} (hne : ls ≠ []) (l : String) :
    unlines (ls ++ [l]) = unlines ls ++ "\n" ++ l := by
  unfold unlines
  rw [String.intercalate_append_of_ne_nil hne (by simp), String.intercalate_singleton]

/-- Joined lines end as the last of them. -/
theorem endsSolid_unlines_concat (ls : List String) {l : String} (h : EndsSolid l.toList) :
    EndsSolid (unlines (ls ++ [l])).toList := by
  by_cases hne : ls = []
  · subst hne
    exact h
  · rw [unlines_concat hne, String.toList_append]
    exact h.append_left _

/-! ## Lines -/

/-- All pieces but the last are lines. The last is one unless it is empty. -/
theorem linesOfPieces_concat (ps : List (List Char)) (last : List Char) :
    linesOfPieces (ps ++ [last]) =
      ps.map dropCarriageReturn ++ if last.isEmpty then [] else [last] := by
  induction ps with
  | nil => rfl
  | cons p ps ih =>
      cases ps with
      | nil => rfl
      | cons q qs =>
          change dropCarriageReturn p :: linesOfPieces (q :: qs ++ [last]) = _
          rw [ih]
          rfl

/-- If a text ends with a line feed, its lines are the pieces before it. -/
theorem lines_ended (body : String) :
    lines (body ++ "\n") =
      (pieces body.toList).map fun p => .ofList (dropCarriageReturn p) := by
  have hpieces : pieces (body ++ "\n").toList = pieces body.toList ++ [[]] := by
    rw [String.toList_append]
    exact pieces_append_newline _ []
  rw [lines, hpieces, linesOfPieces_concat, List.isEmpty_nil, if_pos rfl, List.append_nil,
    List.map_map]
  rfl

theorem dropCarriageReturn_of_endsSolid {cs : List Char} (h : EndsSolid cs) :
    dropCarriageReturn cs = cs :=
  if_neg (h.getLast?_ne (by decide))

/-- If no blank stands in front of the line feed at the end of a text, then none stands at the end
of its last line. -/
theorem exists_last_line {body : String} (h : EndsSolid body.toList) :
    ∃ init last, lines (body ++ "\n") = init ++ [last] ∧ EndsSolid last.toList := by
  obtain ⟨front, c, hbody, hc⟩ := h
  have hnewline : c ≠ '\n' := by
    rintro rfl
    exact absurd hc (by decide)
  obtain ⟨init, last, -, hpieces⟩ := pieces_append_single front hnewline
  have hlast : EndsSolid (last ++ [c]) := ⟨last, c, rfl, hc⟩
  rw [lines_ended, hbody, hpieces, List.map_append, List.map_singleton,
    dropCarriageReturn_of_endsSolid hlast]
  refine ⟨_, _, rfl, ?_⟩
  rw [String.toList_ofList]
  exact hlast

/-- A solid line behind a text that ends with a line feed is its last line. -/
theorem lines_ended_append (body : String) {line : String} (hline : '\n' ∉ line.toList)
    (hsolid : EndsSolid line.toList) :
    lines (body ++ "\n" ++ line ++ "\n") = lines (body ++ "\n") ++ [line] := by
  have hpieces : pieces (body ++ "\n" ++ line).toList = pieces body.toList ++ [line.toList] := by
    have hcons : "\n".toList ++ line.toList = '\n' :: line.toList := rfl
    rw [String.toList_append, String.toList_append, List.append_assoc, hcons,
      pieces_append_newline, pieces_of_not_mem hline]
  rw [lines_ended, lines_ended, hpieces, List.map_append, List.map_singleton,
    dropCarriageReturn_of_endsSolid hsolid, String.ofList_toList]

theorem mem_linesOfPieces {ps : List (List Char)} {cs : List Char}
    (h : cs ∈ linesOfPieces ps) : ∃ p ∈ ps, cs = p ∨ cs = dropCarriageReturn p := by
  rcases List.eq_nil_or_concat' ps with rfl | ⟨init, last, rfl⟩
  · simp [linesOfPieces] at h
  · rw [linesOfPieces_concat] at h
    rcases List.mem_append.1 h with hinit | hlast
    · obtain ⟨p, hp, rfl⟩ := List.mem_map.1 hinit
      exact ⟨p, List.mem_append_left _ hp, .inr rfl⟩
    · refine ⟨last, by simp, .inl ?_⟩
      split at hlast
      · simp at hlast
      · exact List.mem_singleton.1 hlast

/-- No line holds a line feed. -/
theorem not_mem_of_mem_lines {s l : String} (h : l ∈ lines s) : '\n' ∉ l.toList := by
  obtain ⟨cs, hcs, rfl⟩ := List.mem_map.1 h
  rw [String.toList_ofList]
  obtain ⟨p, hp, rfl | rfl⟩ := mem_linesOfPieces hcs
  · exact not_mem_of_mem_pieces hp
  · unfold dropCarriageReturn
    split
    · exact fun hmem => not_mem_of_mem_pieces hp (List.dropLast_subset p hmem)
    · exact not_mem_of_mem_pieces hp

end Punctual.Text
