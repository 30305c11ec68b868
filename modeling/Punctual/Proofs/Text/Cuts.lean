import Mathlib.Data.List.Chain
import Punctual.Proofs.Text.Lines

/-!
# Parts of texts

A part is cut out of a text if it stands between separators or reaches to the ends of the text
(`IsCutOut`). Cutting at a separator and trimming cut parts out, and a part of a part is a part.

A text is firm if no blank stands beside a line feed in it (`IsFirm`): joined lines without blanks
at their ends are firm, and so is every part of a firm text. Conversely the rows of a firm text
have no blanks at their ends if the text has none (`IsFirm.isSolid_of_mem_pieces`).
-/

namespace Punctual.Text

/-! ## Parts between separators -/

/-- The characters stand in a text between separators, or at its ends. -/
def IsCutOut (sep : Char → Bool) (xs cs : List Char) : Prop :=
  ∃ front rest, cs = front ++ xs ++ rest ∧ (∀ c ∈ front.getLast?, sep c) ∧ ∀ c ∈ rest.head?, sep c

section CutOut

variable {sep p : Char → Bool} {xs ys cs : List Char}

theorem isCutOut_append_left {front : List Char} (h : ∀ c ∈ front.getLast?, sep c)
    (xs : List Char) : IsCutOut sep xs (front ++ xs) :=
  ⟨front, [], (List.append_nil _).symm, h, by simp⟩

theorem isCutOut_append_right {rest : List Char} (h : ∀ c ∈ rest.head?, sep c)
    (xs : List Char) : IsCutOut sep xs (xs ++ rest) :=
  ⟨[], rest, rfl, by simp, h⟩

theorem IsCutOut.isInfix (h : IsCutOut sep xs cs) : xs <:+: cs := by
  obtain ⟨front, rest, rfl, -, -⟩ := h
  exact ⟨front, rest, rfl⟩

theorem IsCutOut.trans (hxs : IsCutOut sep xs ys) (hys : IsCutOut sep ys cs) :
    IsCutOut sep xs cs := by
  obtain ⟨front, rest, rfl, hfront, hrest⟩ := hxs
  obtain ⟨front', rest', rfl, hfront', hrest'⟩ := hys
  refine ⟨front' ++ front, rest ++ rest', by simp only [List.append_assoc], ?_, ?_⟩
  · intro c hc
    rw [List.getLast?_append] at hc
    cases hlast : front.getLast? with
    | none => exact hfront' c (by simpa [hlast] using hc)
    | some d => exact hfront c (by simpa [hlast] using hc)
  · intro c hc
    rw [List.head?_append] at hc
    cases hhead : rest.head? with
    | none => exact hrest' c (by simpa [hhead] using hc)
    | some d => exact hrest c (by simpa [hhead] using hc)

theorem isCutOut_dropWhile (h : ∀ c, p c → sep c) (cs : List Char) :
    IsCutOut sep (cs.dropWhile p) cs := by
  have hpart : IsCutOut sep (cs.dropWhile p) (cs.takeWhile p ++ cs.dropWhile p) :=
    isCutOut_append_left (fun c hc => h c (List.mem_takeWhile_imp (List.mem_of_getLast? hc))) _
  rwa [List.takeWhile_append_dropWhile] at hpart

theorem isCutOut_rdropWhile (h : ∀ c, p c → sep c) (cs : List Char) :
    IsCutOut sep (cs.rdropWhile p) cs := by
  have hpart : IsCutOut sep (cs.rdropWhile p) (cs.rdropWhile p ++ cs.rtakeWhile p) :=
    isCutOut_append_right (fun c hc => h c (List.mem_rtakeWhile_imp (List.mem_of_head? hc))) _
  rwa [List.rdropWhile_append_rtakeWhile] at hpart

theorem isCutOut_trim (h : ∀ c, isBlank c → sep c) (s : String) :
    IsCutOut sep (trim s).toList s.toList := by
  rw [toList_trim]
  exact (isCutOut_rdropWhile h _).trans (isCutOut_dropWhile h _)

/-- What is joined by separators is cut out of the whole. -/
theorem isCutOut_intercalate {a : Char} (ha : sep a) {ls : List (List Char)} (h : xs ∈ ls) :
    IsCutOut sep xs ([a].intercalate ls) := by
  induction ls with
  | nil => simp at h
  | cons l ls ih =>
      by_cases hne : ls = []
      · subst hne
        obtain rfl := List.mem_singleton.1 h
        rw [List.intercalate_singleton]
        exact ⟨[], [], by simp, by simp, by simp⟩
      · rw [List.intercalate_cons_of_ne_nil hne]
        rcases List.mem_cons.1 h with rfl | htail
        · rw [List.append_assoc]
          exact isCutOut_append_right (by simpa using ha) _
        · exact (ih htail).trans (isCutOut_append_left (by simpa using ha) _)

theorem isCutOut_of_mem_splitOn {a : Char} (ha : sep a) (h : xs ∈ cs.splitOn a) :
    IsCutOut sep xs cs := by
  have hpart := isCutOut_intercalate ha h
  rwa [List.intercalate_splitOn] at hpart

/-- What lies between separators holds none. -/
theorem not_mem_of_mem_splitOn {a : Char} (h : xs ∈ cs.splitOn a) : a ∉ xs := by
  induction cs generalizing xs with
  | nil =>
      obtain rfl : xs = [] := by simpa using h
      simp
  | cons c cs ih =>
      rw [List.splitOn_cons_eq_if_modifyHead] at h
      split at h
      · rcases List.mem_cons.1 h with rfl | htail
        · simp
        · exact ih htail
      · next hc =>
          cases hsplit : cs.splitOn a with
          | nil => exact absurd hsplit (List.splitOn_ne_nil _ _)
          | cons y ys =>
              rw [hsplit] at h ih
              rcases List.mem_cons.1 h with rfl | htail
              · rw [List.mem_cons, not_or]
                exact ⟨fun heq => hc (beq_iff_eq.2 heq.symm), ih List.mem_cons_self⟩
              · exact ih (List.mem_cons_of_mem _ htail)

theorem isCutOut_of_mem_pieces (ha : sep '\n') (h : xs ∈ pieces cs) : IsCutOut sep xs cs :=
  isCutOut_of_mem_splitOn ha (pieces_eq_splitOn cs ▸ h)

end CutOut

/-! ## Texts without blanks at their ends -/

/-- Neither the first nor the last character is blank. -/
structure IsSolid (cs : List Char) : Prop where
  starts : ∃ c rest, cs = c :: rest ∧ isBlank c = false
  ends : EndsSolid cs

theorem IsSolid.trim_eq {s : String} (h : IsSolid s.toList) : trim s = s := by
  obtain ⟨c, rest, hs, hc⟩ := h.starts
  exact trim_eq_self hs hc h.ends

theorem IsSolid.ne_empty {s : String} (h : IsSolid s.toList) : s ≠ "" :=
  h.ends.ne_empty

theorem isSolid_trim {s : String} (h : trim s ≠ "") : IsSolid (trim s).toList := by
  refine ⟨?_, endsSolid_trim h⟩
  obtain ⟨rest, hrest⟩ := List.rdropWhile_prefix isBlank (s.toList.dropWhile isBlank)
  rw [← toList_trim] at hrest
  cases hcs : (trim s).toList with
  | nil => exact absurd (String.toList_eq_nil_iff.1 hcs) h
  | cons c cs =>
      have hhead := List.head?_dropWhile_not isBlank s.toList
      rw [← hrest, hcs] at hhead
      exact ⟨c, cs, rfl, by simpa using hhead⟩

/-- Trimming twice makes no difference. -/
@[simp] theorem trim_trim (s : String) : trim (trim s) = trim s := by
  by_cases h : trim s = ""
  · rw [h]
    decide
  · exact (isSolid_trim h).trim_eq

theorem trim_blanks_append {bs : List Char} (h : ∀ b ∈ bs, isBlank b) (cs : List Char) :
    trim (.ofList (bs ++ cs)) = trim (.ofList cs) := by
  apply String.toList_injective
  rw [toList_trim, toList_trim, String.toList_ofList, String.toList_ofList,
    List.dropWhile_append_of_pos h]

/-- A text is what trimming leaves of it, between blanks. -/
theorem exists_blanks_trim (s : String) : ∃ front rest, (∀ b ∈ front, isBlank b) ∧
    (∀ b ∈ rest, isBlank b) ∧ s.toList = front ++ ((trim s).toList ++ rest) := by
  refine ⟨s.toList.takeWhile isBlank, (s.toList.dropWhile isBlank).rtakeWhile isBlank,
    fun b => List.mem_takeWhile_imp, fun b => List.mem_rtakeWhile_imp, ?_⟩
  rw [toList_trim, List.rdropWhile_append_rtakeWhile, List.takeWhile_append_dropWhile]

/-! ## Firm texts -/

/-- No blank stands beside a line feed. -/
def IsFirm (cs : List Char) : Prop :=
  cs.IsChain fun c d => (c = '\n' → isBlank d = false) ∧ (d = '\n' → isBlank c = false)

theorem isFirm_of_not_mem {cs : List Char} (h : '\n' ∉ cs) : IsFirm cs := by
  unfold IsFirm
  induction cs with
  | nil => exact List.isChain_nil
  | cons c cs ih =>
      obtain ⟨hc, hrest⟩ := not_or.1 (List.mem_cons.not.1 h)
      refine List.isChain_cons.2 ⟨fun d hd => ⟨fun heq => absurd heq.symm hc, ?_⟩, ih hrest⟩
      rintro rfl
      exact absurd (List.mem_of_head? hd) hrest

/-- Firm texts can be joined where no blank stands at their ends. -/
theorem IsFirm.append_newline {cs ds : List Char} (hcs : IsFirm cs) (hsolid : EndsSolid cs)
    (hds : IsFirm ds) (hstarts : ∃ d rest, ds = d :: rest ∧ isBlank d = false) :
    IsFirm (cs ++ '\n' :: ds) := by
  obtain ⟨init, c, rfl, hc⟩ := hsolid
  obtain ⟨d, rest, rfl, hd⟩ := hstarts
  refine List.IsChain.append hcs (List.isChain_cons_cons.2 ⟨⟨fun _ => hd, ?_⟩, hds⟩) ?_
  · rintro rfl
    exact absurd hd (by decide)
  · intro x hx y hy
    obtain rfl : x = c := by simpa using hx.symm
    refine ⟨?_, fun _ => hc⟩
    rintro rfl
    exact absurd hc (by decide)

/-- Firm texts can be joined by another character if no line feed stands beside it. -/
theorem IsFirm.append_cons {cs ds : List Char} {c : Char} (hcs : IsFirm cs) (hds : IsFirm ds)
    (hc : c ≠ '\n') (hlast : ∀ x ∈ cs.getLast?, x ≠ '\n') (hhead : ∀ y ∈ ds.head?, y ≠ '\n') :
    IsFirm (cs ++ c :: ds) := by
  refine List.IsChain.append hcs (List.isChain_cons.2 ⟨fun y hy => ?_, hds⟩) ?_
  · exact ⟨fun h => absurd h hc, fun h => absurd h (hhead y hy)⟩
  · intro x hx y hy
    obtain rfl : c = y := by simpa using hy
    exact ⟨fun h => absurd h (hlast x hx), fun h => absurd h hc⟩

theorem isSolid_append {xs ys : List Char} (hxs : IsSolid xs) (hys : IsSolid ys)
    (between : List Char) : IsSolid (xs ++ between ++ ys) := by
  obtain ⟨c, rest, rfl, hc⟩ := hxs.starts
  exact ⟨⟨c, rest ++ between ++ ys, rfl, hc⟩, hys.ends.append_left _⟩

theorem toList_unlines_cons {ls : List String} (hne : ls ≠ []) (l : String) :
    (unlines (l :: ls)).toList = l.toList ++ '\n' :: (unlines ls).toList := by
  rw [unlines, String.intercalate_cons_of_ne_nil hne, String.toList_append, String.toList_append,
    List.append_assoc]
  rfl

/-- Solid lines are joined to a firm text without blanks at its ends. -/
theorem isFirm_unlines {ls : List String} (hne : ls ≠ []) (hsolid : ∀ l ∈ ls, IsSolid l.toList)
    (hfeed : ∀ l ∈ ls, '\n' ∉ l.toList) :
    IsFirm (unlines ls).toList ∧ IsSolid (unlines ls).toList := by
  induction ls with
  | nil => exact absurd rfl hne
  | cons l ls ih =>
      have hl := hsolid l List.mem_cons_self
      have hfirm := isFirm_of_not_mem (hfeed l List.mem_cons_self)
      by_cases hlast : ls = []
      · subst hlast
        exact ⟨hfirm, hl⟩
      · obtain ⟨hrest, hends⟩ := ih hlast (fun l' hl' => hsolid l' (List.mem_cons_of_mem _ hl'))
          fun l' hl' => hfeed l' (List.mem_cons_of_mem _ hl')
        rw [toList_unlines_cons hlast]
        refine ⟨hfirm.append_newline hl.ends hrest hends.starts, ?_⟩
        rw [List.append_cons]
        exact isSolid_append hl hends ['\n']

theorem isBlank_newline : isBlank '\n' := by
  decide

theorem endsSolid_iff {cs : List Char} :
    EndsSolid cs ↔ ∃ c ∈ cs.getLast?, isBlank c = false := by
  simp only [EndsSolid, Option.mem_def, List.getLast?_eq_some_iff]
  constructor
  · rintro ⟨init, c, hcs, hc⟩
    exact ⟨c, ⟨init, hcs⟩, hc⟩
  · rintro ⟨c, ⟨init, hcs⟩, hc⟩
    exact ⟨init, c, hcs, hc⟩

/-- In a firm text without blanks at its ends, what follows a line feed or the beginning of the text
begins with a character that is not blank. -/
theorem IsFirm.exists_head {front back : List Char} (hfirm : IsFirm (front ++ back))
    (hsolid : IsSolid (front ++ back)) (hfront : ∀ c ∈ front.getLast?, c = '\n') :
    ∃ c ∈ back.head?, isBlank c = false := by
  rcases List.eq_nil_or_concat' front with rfl | ⟨init, x, rfl⟩
  · obtain ⟨c, rest, hback, hc⟩ := hsolid.starts
    rw [List.nil_append] at hback
    exact ⟨c, by simp [hback], hc⟩
  · obtain rfl := hfront x (by simp)
    cases back with
    | nil =>
        obtain ⟨c, hlast, hc⟩ := endsSolid_iff.1 hsolid.ends
        obtain rfl : c = '\n' := by simpa using hlast.symm
        rw [isBlank_newline] at hc
        simp at hc
    | cons d back =>
        have hbeside := (List.isChain_append.1 hfirm).2.2 '\n' (by simp) d (by simp)
        exact ⟨d, by simp, hbeside.1 rfl⟩

/-- The same for what stands in front of a line feed or the end. -/
theorem IsFirm.exists_last {front back : List Char} (hfirm : IsFirm (front ++ back))
    (hsolid : IsSolid (front ++ back)) (hback : ∀ c ∈ back.head?, c = '\n') :
    ∃ c ∈ front.getLast?, isBlank c = false := by
  cases back with
  | nil =>
      rw [List.append_nil] at hsolid
      exact endsSolid_iff.1 hsolid.ends
  | cons x back =>
      obtain rfl := hback x (by simp)
      rcases List.eq_nil_or_concat' front with rfl | ⟨init, d, rfl⟩
      · obtain ⟨c, rest, hcons, hc⟩ := hsolid.starts
        obtain rfl : '\n' = c := (List.cons.inj hcons).1
        rw [isBlank_newline] at hc
        simp at hc
      · have hbeside := (List.isChain_append.1 hfirm).2.2 d (by simp) '\n' (by simp)
        exact ⟨d, by simp, hbeside.2 rfl⟩

/-- The rows of a firm text have no blanks at their ends if the text has none. -/
theorem IsFirm.isSolid_of_mem_pieces {cs p : List Char} (hfirm : IsFirm cs) (hsolid : IsSolid cs)
    (hp : p ∈ pieces cs) : IsSolid p := by
  have hpart : IsCutOut (· == '\n') p cs := isCutOut_of_mem_pieces (by simp) hp
  obtain ⟨front, rest, rfl, hfront, hrest⟩ := hpart
  have hnewline {c : Char} (hc : c == '\n') : ¬ isBlank c = false := by
    obtain rfl := beq_iff_eq.1 hc
    simp [isBlank_newline]
  obtain ⟨d, hlast, hd⟩ := hfirm.exists_last hsolid fun c hc => beq_iff_eq.1 (hrest c hc)
  rw [List.append_assoc] at hfirm hsolid
  obtain ⟨c, hhead, hc⟩ := hfirm.exists_head hsolid fun c hc => beq_iff_eq.1 (hfront c hc)
  cases p with
  | nil =>
      rw [List.nil_append] at hhead
      exact absurd hc (hnewline (hrest c hhead))
  | cons x p =>
      obtain rfl : x = c := by simpa using hhead
      refine ⟨⟨x, p, rfl, hc⟩, endsSolid_iff.2 ⟨d, ?_, hd⟩⟩
      simpa [List.getLast?_append] using hlast

/-! ## Rows -/

/-- What lies between the line feeds of a text. -/
def rows (s : String) : List String :=
  (pieces s.toList).map .ofList

theorem unlines_rows (s : String) : unlines (rows s) = s := by
  apply String.toList_injective
  rw [unlines, String.toList_intercalate, rows, pieces_eq_splitOn, List.map_map]
  have hid : (String.toList ∘ String.ofList) = id := by
    funext cs
    exact String.toList_ofList
  rw [hid, List.map_id]
  exact List.intercalate_splitOn '\n'

theorem rows_ne_nil (s : String) : rows s ≠ [] := by
  simpa [rows] using pieces_ne_nil s.toList

theorem rows_of_not_mem {s : String} (h : '\n' ∉ s.toList) : rows s = [s] := by
  rw [rows, pieces_of_not_mem h, List.map_singleton, String.ofList_toList]

theorem not_mem_of_mem_rows {s row : String} (h : row ∈ rows s) : '\n' ∉ row.toList := by
  obtain ⟨p, hp, rfl⟩ := List.mem_map.1 h
  rw [String.toList_ofList]
  exact not_mem_of_mem_pieces hp

theorem rows_append_newline (s t : String) : rows (s ++ "\n" ++ t) = rows s ++ rows t := by
  have hcons : (s ++ "\n" ++ t).toList = s.toList ++ '\n' :: t.toList := by
    rw [String.toList_append, String.toList_append, List.append_assoc]
    rfl
  rw [rows, hcons, pieces_append_newline, List.map_append]
  rfl

theorem rows_unlines {ls : List String} (hne : ls ≠ []) (h : ∀ l ∈ ls, '\n' ∉ l.toList) :
    rows (unlines ls) = ls := by
  rw [rows, pieces_unlines hne h, List.map_map]
  exact (List.map_congr_left fun l _ => String.ofList_toList).trans (List.map_id ls)

/-- What is written in front of a text stands in front of its first row. -/
theorem rows_append_left {front : String} (hfront : '\n' ∉ front.toList) {s row : String}
    {more : List String} (h : rows s = row :: more) : rows (front ++ s) = (front ++ row) :: more := by
  have hrows : ∀ l ∈ row :: more, '\n' ∉ l.toList := by
    rw [← h]
    exact fun _ => not_mem_of_mem_rows
  rw [List.forall_mem_cons] at hrows
  have hfirst : '\n' ∉ (front ++ row).toList := by
    rw [String.toList_append, List.mem_append, not_or]
    exact ⟨hfront, hrows.1⟩
  by_cases hlast : more = []
  · subst hlast
    have hs : s = row := by rw [← unlines_rows s, h, unlines, String.intercalate_singleton]
    rw [hs, rows_of_not_mem hfirst]
  · have hs : s = row ++ "\n" ++ unlines more := by
      rw [← unlines_rows s, h]
      exact String.intercalate_cons_of_ne_nil hlast
    rw [hs, ← String.append_assoc, ← String.append_assoc, rows_append_newline,
      rows_of_not_mem hfirst, rows_unlines hlast hrows.2, List.singleton_append]

/-- Joined texts may be broken into rows before. -/
theorem unlines_flatMap_rows (ls : List String) : unlines (ls.flatMap rows) = unlines ls := by
  induction ls with
  | nil => rfl
  | cons l ls ih =>
      rw [List.flatMap_cons]
      by_cases hlast : ls = []
      · subst hlast
        rw [List.flatMap_nil, List.append_nil, unlines_rows]
        exact String.intercalate_singleton.symm
      · have hrest : ls.flatMap rows ≠ [] := by
          obtain ⟨l', ls', rfl⟩ := List.exists_cons_of_ne_nil hlast
          simp [rows_ne_nil]
        unfold unlines at ih ⊢
        rw [String.intercalate_append_of_ne_nil (rows_ne_nil l) hrest, ih,
          String.intercalate_cons_of_ne_nil hlast]
        congr 2
        exact unlines_rows l

/-! ### Ended lines -/

theorem linesEnded_append (ls ms : List String) :
    linesEnded (ls ++ ms) = linesEnded ls ++ linesEnded ms := by
  rw [linesEnded, List.map_append, String.join_append]
  rfl

theorem linesEnded_cons (l : String) (ls : List String) :
    linesEnded (l :: ls) = l ++ "\n" ++ linesEnded ls := by
  rw [linesEnded, List.map_cons, String.join_cons]
  rfl

theorem linesEnded_singleton (l : String) : linesEnded [l] = l ++ "\n" := by
  rw [linesEnded_cons, linesEnded, List.map_nil, String.join_nil, String.append_empty]

theorem linesEnded_flatMap {α : Type} (f : α → List String) (as : List α) :
    linesEnded (as.flatMap f) = String.join (as.map fun a => linesEnded (f a)) := by
  induction as with
  | nil => rfl
  | cons a as ih =>
      rw [List.flatMap_cons, linesEnded_append, ih, List.map_cons, String.join_cons]

/-- Lines that are joined, or ended each. -/
theorem linesEnded_eq_unlines {ls : List String} (hne : ls ≠ []) :
    linesEnded ls = unlines ls ++ "\n" := by
  induction ls with
  | nil => exact absurd rfl hne
  | cons l ls ih =>
      by_cases hlast : ls = []
      · subst hlast
        rw [linesEnded_singleton, unlines, String.intercalate_singleton]
      · rw [linesEnded_cons, ih hlast]
        unfold unlines
        rw [String.intercalate_cons_of_ne_nil hlast]
        simp only [String.append_assoc]

theorem linesEnded_rows (s : String) : linesEnded (rows s) = s ++ "\n" := by
  rw [linesEnded_eq_unlines (rows_ne_nil s), unlines_rows]

/-- Lines are read back from a text that ends each of them. -/
theorem lines_linesEnded {ls : List String} (hfeed : ∀ l ∈ ls, '\n' ∉ l.toList)
    (hreturn : ∀ l ∈ ls, l.toList.getLast? ≠ some '\r') : lines (linesEnded ls) = ls := by
  by_cases hne : ls = []
  · subst hne
    rfl
  · rw [linesEnded_eq_unlines hne, lines_ended, pieces_unlines hne hfeed, List.map_map]
    refine List.map_congr_left (fun l hl => ?_) |>.trans (List.map_id ls)
    rw [Function.comp_apply, dropCarriageReturn, if_neg (hreturn l hl), String.ofList_toList, id]

end Punctual.Text
