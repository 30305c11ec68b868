import Punctual.Proofs.Model.Merging

/-!
# Rendered models

The text of a sound model ends with a line feed behind a character that is not blank, so that
trimming it drops this line feed only (`Model.isEnded_text`). If the model has auxiliary modules,
its text ends inside the last of them (`Model.endsInside_text`).

Every line that a section consists of is a line of the whole text (`Model.mem_lines_of_isGathered`,
`Model.mem_lines_of_not_isGathered`).
-/

namespace Punctual

open Fragment Text

/-- The text ends with a line feed, and no blank stands in front of it. -/
def IsEnded (s : String) : Prop :=
  ∃ body, s = body ++ "\n" ∧ EndsSolid body.toList

theorem isEnded_of_endsSolid {s : String} (h : EndsSolid s.toList) : IsEnded (s ++ "\n") :=
  ⟨s, rfl, h⟩

theorem IsEnded.append_left (s : String) {t : String} (h : IsEnded t) : IsEnded (s ++ t) := by
  obtain ⟨body, rfl, hbody⟩ := h
  refine ⟨s ++ body, (String.append_assoc ..).symm, ?_⟩
  rw [String.toList_append]
  exact hbody.append_left _

/-- Texts that end so may follow each other, and empty texts make no difference. -/
theorem IsEnded.append_join {s : String} (h : IsEnded s) {ts : List String}
    (hts : ∀ t ∈ ts, t = "" ∨ IsEnded t) : IsEnded (s ++ String.join ts) := by
  induction ts generalizing s with
  | nil =>
      rw [String.join_nil, String.append_empty]
      exact h
  | cons t ts ih =>
      rw [String.join_cons, ← String.append_assoc]
      refine ih ?_ fun t' ht' => hts t' (List.mem_cons_of_mem _ ht')
      rcases hts t (by simp) with rfl | ht
      · rw [String.append_empty]
        exact h
      · exact ht.append_left s

/-! ## Sections -/

theorem endsSolid_of_getLast? {cs : List Char} (h : cs.getLast?.any (!isBlank ·)) :
    EndsSolid cs := by
  obtain ⟨c, hlast, hc⟩ := (Option.any_eq_true _ _).1 h
  obtain ⟨init, rfl⟩ := List.getLast?_eq_some_iff.1 hlast
  exact ⟨init, c, rfl, by simpa using hc⟩

/-- No keyword ends with a blank. -/
theorem endsSolid_keyword {word : String} {kind : SectionKind}
    (h : SectionKind.ofKeyword? word = some kind) : EndsSolid word.toList := by
  unfold SectionKind.ofKeyword? at h
  split at h
  all_goals first
    | exact endsSolid_of_getLast? (by decide)
    | simp at h

theorem endsSolid_of_mem_trimmedLines {ls : List String} {l : String} (h : l ∈ trimmedLines ls) :
    EndsSolid l.toList := by
  obtain ⟨hmem, hne⟩ := List.mem_filter.1 h
  obtain ⟨line, -, rfl⟩ := List.mem_map.1 hmem
  exact endsSolid_trim (by simpa using hne)

theorem endsSolid_text {s : Section} (h : IsOpened s) : EndsSolid s.text.toList := by
  have hlines : ∀ l ∈ trimmedLines s.body, EndsSolid l.toList :=
    fun l => endsSolid_of_mem_trimmedLines
  unfold Section.text
  split
  · exact endsSolid_keyword h
  · next line heq =>
      rw [String.toList_append]
      exact (hlines line (by simp [heq])).append_left _
  · next hnil hone =>
      obtain ⟨front, last, heq⟩ : ∃ front last, trimmedLines s.body = front ++ [last] := by
        rcases List.eq_nil_or_concat' (trimmedLines s.body) with hempty | hconcat
        · exact absurd hempty hnil
        · exact hconcat
      rw [heq, List.map_append, List.map_singleton, String.join_append, String.join_cons,
        String.join_nil, String.append_empty, String.toList_append, String.toList_append,
        String.toList_append]
      refine EndsSolid.append_left _ (EndsSolid.append_left _ (EndsSolid.append_left _ ?_))
      exact hlines last (by simp [heq])

/-- A group of sections is empty or ends with a line feed. -/
theorem isEnded_groupText {kind : SectionKind} {s : Section} {sections : List Section}
    (h : ∀ s' ∈ s :: sections, IsOpened s') : IsEnded (Model.groupText kind (s :: sections)) := by
  unfold Model.groupText
  split
  · refine IsEnded.append_join ?_ ?_
    · exact isEnded_of_endsSolid (endsSolid_keyword (SectionKind.ofKeyword?_keyword kind))
    · intro t ht
      obtain ⟨l, hl, rfl⟩ := List.mem_map.1 ht
      refine .inr (isEnded_of_endsSolid ?_)
      rw [String.toList_append]
      exact (endsSolid_of_mem_trimmedLines hl).append_left _
  · rw [Text.linesEnded, List.map_cons, List.map_cons, String.join_cons]
    refine IsEnded.append_join ?_ ?_
    · exact isEnded_of_endsSolid (endsSolid_text (h s (by simp)))
    · intro t ht
      obtain ⟨text, htext, rfl⟩ := List.mem_map.1 ht
      obtain ⟨s', hs', rfl⟩ := List.mem_map.1 htext
      exact .inr (isEnded_of_endsSolid (endsSolid_text (h s' (List.mem_cons_of_mem _ hs'))))

/-! ## Models -/

namespace Model

variable {m : Model}

theorem isEnded_text (h : m.Sound) : IsEnded m.text := by
  unfold text
  refine IsEnded.append_join (IsEnded.append_join ?_ ?_) ?_
  · exact ⟨"MODULE main", rfl, endsSolid_of_getLast? (by decide)⟩
  · intro t ht
    obtain ⟨kind, -, rfl⟩ := List.mem_map.1 ht
    cases hkind : ofKind kind m.sections with
    | nil => exact .inl rfl
    | cons s sections =>
        refine .inr (isEnded_groupText fun s' hs' => ?_)
        rw [← hkind] at hs'
        exact h.sections s' (List.mem_of_mem_filter hs')
  · intro t ht
    obtain ⟨⟨name, body⟩, hmem, rfl⟩ := List.mem_map.1 ht
    refine .inr (isEnded_of_endsSolid ?_)
    rw [String.toList_append]
    exact (h.modules _ hmem).endsSolid.append_left _

/-- The text of a model with auxiliary modules ends inside the last of them. -/
theorem endsInside_text (h : m.Sound) (hne : m.modules ≠ []) :
    endsInside false (lines m.text) = true := by
  obtain ⟨init, ⟨name, body⟩, heq⟩ := (List.eq_nil_or_concat' m.modules).resolve_left hne
  have hlast := h.modules (name, body) (by simp [heq])
  obtain ⟨front, hfront⟩ : ∃ front, m.text.toList = front ++ '\n' :: (body.toList ++ ['\n']) := by
    have hshown : ("\n" ++ body ++ "\n").toList = '\n' :: (body.toList ++ ['\n']) := by
      rw [String.toList_append, String.toList_append]
      rfl
    rw [text, heq, List.map_append, List.map_singleton, String.join_append, String.join_cons,
      String.join_nil, String.append_empty, ← String.append_assoc, String.toList_append, hshown]
    exact ⟨_, rfl⟩
  rw [endsInside_lines, hfront, piecesEndInside_append_newline,
    piecesEndInside_append_blanks _ _ (List.forall_mem_singleton.2 (by decide))]
  exact hlast.endsInside _

end Model

/-! ## Lines of a rendered model -/

/-- The text is empty or ends with a line feed. -/
def IsBroken (s : String) : Prop :=
  s = "" ∨ ∃ body, s = body ++ "\n"

theorem isBroken_concat (body : String) : IsBroken (body ++ "\n") :=
  .inr ⟨body, rfl⟩

theorem IsBroken.append {s t : String} (hs : IsBroken s) (ht : IsBroken t) :
    IsBroken (s ++ t) := by
  rcases ht with rfl | ⟨body, rfl⟩
  · rw [String.append_empty]
    exact hs
  · rw [← String.append_assoc]
    exact isBroken_concat _

theorem isBroken_join {ts : List String} (h : ∀ t ∈ ts, IsBroken t) :
    IsBroken (String.join ts) := by
  induction ts with
  | nil => exact .inl String.join_nil
  | cons t ts ih =>
      rw [String.join_cons]
      exact (h t (by simp)).append (ih fun t' ht' => h t' (List.mem_cons_of_mem _ ht'))

/-- The line stands in the text, ended by a line feed, and begins where the text is broken. -/
def HasLine (text line : String) : Prop :=
  ∃ front rest, text = front ++ line ++ "\n" ++ rest ∧ IsBroken front

theorem hasLine_self (line : String) : HasLine (line ++ "\n") line :=
  ⟨"", "", by rw [String.empty_append, String.append_empty], .inl rfl⟩

theorem HasLine.append_right {text line : String} (h : HasLine text line) (more : String) :
    HasLine (text ++ more) line := by
  obtain ⟨front, rest, rfl, hfront⟩ := h
  exact ⟨front, rest ++ more, String.append_assoc .., hfront⟩

theorem HasLine.append_left {text line before : String} (hbefore : IsBroken before)
    (h : HasLine text line) : HasLine (before ++ text) line := by
  obtain ⟨front, rest, rfl, hfront⟩ := h
  refine ⟨before ++ front, rest, ?_, hbefore.append hfront⟩
  simp only [String.append_assoc]

theorem HasLine.join {ts : List String} {t line : String} (ht : t ∈ ts) (h : HasLine t line)
    (hts : ∀ t ∈ ts, IsBroken t) : HasLine (String.join ts) line := by
  obtain ⟨before, after, rfl⟩ := List.append_of_mem ht
  rw [String.join_append, String.join_cons]
  have hbefore : IsBroken (String.join before) :=
    isBroken_join fun t' ht' => hts t' (List.mem_append_left _ ht')
  exact (h.append_right _).append_left hbefore

theorem HasLine.mem_lines {text line : String} (h : HasLine text line)
    (hline : '\n' ∉ line.toList) (hsolid : EndsSolid line.toList) : line ∈ lines text := by
  obtain ⟨front, rest, rfl, hfront⟩ := h
  obtain ⟨ps, hps⟩ : ∃ ps, pieces (front ++ line ++ "\n" ++ rest).toList =
      ps ++ line.toList :: pieces rest.toList := by
    have hcons (s : String) : "\n".toList ++ s.toList = '\n' :: s.toList := rfl
    rcases hfront with rfl | ⟨body, rfl⟩
    · refine ⟨[], ?_⟩
      rw [String.empty_append, String.toList_append, String.toList_append, List.append_assoc,
        hcons, pieces_append_newline, pieces_of_not_mem hline]
      rfl
    · refine ⟨pieces body.toList, ?_⟩
      rw [String.append_assoc, String.append_assoc, String.append_assoc, String.toList_append,
        String.toList_append, hcons, String.toList_append, String.toList_append, hcons,
        pieces_append_newline, pieces_append_newline, pieces_of_not_mem hline]
      rfl
  obtain ⟨init, last, hrest⟩ := (List.eq_nil_or_concat' (pieces rest.toList)).resolve_left
    (pieces_ne_nil _)
  have hmem : dropCarriageReturn line.toList ∈ linesOfPieces (ps ++ line.toList :: (init ++ [last])) := by
    rw [← List.cons_append, ← List.append_assoc, linesOfPieces_concat]
    exact List.mem_append_left _ (List.mem_map_of_mem (by simp))
  rw [dropCarriageReturn_of_endsSolid hsolid, ← hrest, ← hps] at hmem
  have hshown := List.mem_map_of_mem (f := String.ofList) hmem
  rw [String.ofList_toList] at hshown
  exact hshown

namespace Model

variable {m : Model} {s : Section} {line : String}

theorem isBroken_groupText (kind : SectionKind) (sections : List Section) :
    IsBroken (groupText kind sections) := by
  unfold groupText
  split
  · refine (isBroken_concat _).append (isBroken_join fun t ht => ?_)
    obtain ⟨l, -, rfl⟩ := List.mem_map.1 ht
    exact isBroken_concat _
  · refine isBroken_join fun t ht => ?_
    obtain ⟨l, -, rfl⟩ := List.mem_map.1 ht
    exact isBroken_concat _

/-- A line of the group of its kind is a line of the model. -/
theorem mem_lines_of_hasLine_groupText {kind : SectionKind} (hs : s ∈ ofKind kind m.sections)
    (h : HasLine (groupText kind (ofKind kind m.sections)) line) (hline : '\n' ∉ line.toList)
    (hsolid : EndsSolid line.toList) : line ∈ lines m.text := by
  refine HasLine.mem_lines ?_ hline hsolid
  refine HasLine.append_right (HasLine.append_left (isBroken_concat "MODULE main") ?_) _
  refine HasLine.join (List.mem_map_of_mem (SectionKind.mem_all kind)) ?_ ?_
  · cases hgroup : ofKind kind m.sections with
    | nil => simp [hgroup] at hs
    | cons s' ss =>
        rw [hgroup] at h
        exact h
  · intro t ht
    obtain ⟨kind', -, rfl⟩ := List.mem_map.1 ht
    split
    · exact .inl rfl
    · exact isBroken_groupText _ _

theorem mem_ofKind (hs : s ∈ m.sections) : s ∈ ofKind s.kind m.sections :=
  List.mem_filter.2 ⟨hs, by simp⟩

theorem mem_lines_of_isGathered (hs : s ∈ m.sections) (hkind : s.kind.isGathered)
    (hl : line ∈ trimmedLines s.body) (hline : '\n' ∉ ("    " ++ line).toList)
    (hsolid : EndsSolid ("    " ++ line).toList) : "    " ++ line ∈ lines m.text := by
  have hgroup := mem_ofKind hs
  refine mem_lines_of_hasLine_groupText hgroup ?_ hline hsolid
  unfold groupText
  rw [if_pos hkind]
  refine HasLine.append_left (isBroken_concat _) ?_
  have hall : line ∈ trimmedLines ((ofKind s.kind m.sections).flatMap (·.body)) := by
    obtain ⟨hmem, hne⟩ := List.mem_filter.1 hl
    obtain ⟨raw, hraw, rfl⟩ := List.mem_map.1 hmem
    exact List.mem_filter.2
      ⟨List.mem_map_of_mem (List.mem_flatMap.2 ⟨s, hgroup, hraw⟩), hne⟩
  refine HasLine.join (List.mem_map_of_mem hall) (hasLine_self _) ?_
  intro t ht
  obtain ⟨l, -, rfl⟩ := List.mem_map.1 ht
  exact isBroken_concat _

theorem mem_lines_of_not_isGathered (hs : s ∈ m.sections) (hkind : s.kind.isGathered = false)
    (hline : '\n' ∉ s.text.toList) (hsolid : EndsSolid s.text.toList) :
    s.text ∈ lines m.text := by
  have hgroup := mem_ofKind hs
  refine mem_lines_of_hasLine_groupText hgroup ?_ hline hsolid
  unfold groupText
  rw [if_neg (by simp [hkind])]
  refine HasLine.join (List.mem_map_of_mem (List.mem_map_of_mem hgroup)) (hasLine_self _) ?_
  intro t ht
  obtain ⟨l, -, rfl⟩ := List.mem_map.1 ht
  exact isBroken_concat _

end Model

end Punctual
