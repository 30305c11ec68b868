import Punctual.Proofs.Model.Auxiliary

/-!
# Parsing rendered models

The text of a model consists of blocks of lines: one for each section that it shows, a line with the
keyword and the lines of the body, and one for each auxiliary module. Every block is parsed to what
it was written from (`Opens`, `HeadsModule`), whatever stands before it, so that the fragment of the
whole text holds the shown sections, up to blanks around the lines of their bodies, and the modules
as they are (`Model.parse_text`).
-/

namespace Punctual

open Text Fragment

/-! ## Sections with trimmed lines -/

theorem trimmedLines_append (ls ms : List String) :
    trimmedLines (ls ++ ms) = trimmedLines ls ++ trimmedLines ms := by
  rw [trimmedLines, List.map_append, List.filter_append]
  rfl

theorem trimmedLines_singleton (l : String) :
    trimmedLines [l] = if trim l = "" then [] else [trim l] := by
  by_cases h : trim l = "" <;> simp [trimmedLines, h]

theorem trimmedLines_cons (l : String) (ls : List String) :
    trimmedLines (l :: ls) = (if trim l = "" then [] else [trim l]) ++ trimmedLines ls := by
  rw [← List.singleton_append, trimmedLines_append, trimmedLines_singleton]

theorem isSolid_of_mem_trimmedLines {ls : List String} {l : String} (h : l ∈ trimmedLines ls) :
    IsSolid l.toList := by
  obtain ⟨hmem, hne⟩ := List.mem_filter.1 h
  obtain ⟨line, -, rfl⟩ := List.mem_map.1 hmem
  exact isSolid_trim (by simpa using hne)

/-- Solid lines are left as they are. -/
theorem trimmedLines_of_isSolid {ls : List String} (h : ∀ l ∈ ls, IsSolid l.toList) :
    trimmedLines ls = ls := by
  induction ls with
  | nil => rfl
  | cons l ls ih =>
      have hl := h l List.mem_cons_self
      rw [trimmedLines_cons, ih fun l' hl' => h l' (List.mem_cons_of_mem _ hl'), hl.trim_eq,
        if_neg hl.ne_empty, List.singleton_append]

@[simp] theorem trimmedLines_trimmedLines (ls : List String) :
    trimmedLines (trimmedLines ls) = trimmedLines ls :=
  trimmedLines_of_isSolid fun _ => isSolid_of_mem_trimmedLines

theorem trimmedLines_flatMap {α : Type} (f : α → List String) (as : List α) :
    trimmedLines (as.flatMap f) = as.flatMap fun a => trimmedLines (f a) := by
  induction as with
  | nil => rfl
  | cons a as ih => rw [List.flatMap_cons, trimmedLines_append, ih, List.flatMap_cons]

namespace Section

/-- The section without the blanks around the lines of its body, and without the lines that hold
nothing else. -/
def tidy (s : Section) : Section :=
  { s with body := trimmedLines s.body }

theorem text_tidy (s : Section) : s.tidy.text = s.text := by
  simp only [text, tidy, trimmedLines_trimmedLines]

/-- Blanks around the lines do not show in the content. -/
theorem content_tidy (s : Section) : s.tidy.content = s.content := by
  have hempty : trim (stripComment "") = "" := rfl
  have hline (l : String) : trimmedLines ((if trim l = "" then [] else [trim l]).map stripComment) =
      if trim (stripComment l) = "" then [] else [trim (stripComment l)] := by
    rw [← trim_stripComment_trim l]
    by_cases hblank : trim l = ""
    · rw [if_pos hblank, hblank, if_pos hempty]
      rfl
    · rw [if_neg hblank, List.map_singleton, trimmedLines_singleton]
  have hlines (ls : List String) : trimmedLines ((trimmedLines ls).map stripComment) =
      trimmedLines (ls.map stripComment) := by
    induction ls with
    | nil => rfl
    | cons l ls ih =>
        rw [trimmedLines_cons, List.map_append, trimmedLines_append, ih, hline, List.map_cons,
          trimmedLines_cons]
  rw [content, content, tidy, hlines]

/-- The section with its body broken into rows. -/
def rowed (s : Section) : Section :=
  { s with body := (trimmedLines s.body).flatMap rows }

@[simp] theorem kind_tidy (s : Section) : s.tidy.kind = s.kind := rfl

@[simp] theorem kind_rowed (s : Section) : s.rowed.kind = s.kind := rfl

/-- The lines of a section in the text of a model. -/
def shownLines (s : Section) : List String :=
  if s.kind.isGathered then
    s.keyword :: (trimmedLines s.body).flatMap fun line => rows ("    " ++ line)
  else rows s.text

end Section

/-! ## The sections that a model shows -/

namespace Model

/-- The sections of a kind as a model shows them: one that gathers their bodies, or each for
itself. -/
def shownOfKind (kind : SectionKind) (sections : List Section) : List Section :=
  match ofKind kind sections with
  | [] => []
  | group =>
    if kind.isGathered then [⟨kind, kind.keyword, group.flatMap (·.body)⟩] else group

/-- All sections that a model shows, in order. -/
def shown (sections : List Section) : List Section :=
  SectionKind.all.flatMap fun kind => shownOfKind kind sections

/-- The lines of the text of a model. -/
def textLines (m : Model) : List String :=
  "MODULE main" :: (shown m.sections).flatMap Section.shownLines ++
    m.modules.flatMap fun e => "" :: rows e.2

theorem linesEnded_shownOfKind (kind : SectionKind) (sections : List Section) :
    linesEnded ((shownOfKind kind sections).flatMap Section.shownLines) =
      match ofKind kind sections with
      | [] => ""
      | group => groupText kind group := by
  unfold shownOfKind
  cases hgroup : ofKind kind sections with
  | nil => rfl
  | cons s ss =>
      dsimp only
      unfold groupText
      by_cases hgathered : kind.isGathered
      · rw [if_pos hgathered, if_pos hgathered, List.flatMap_singleton, Section.shownLines,
          if_pos hgathered, linesEnded_cons, linesEnded_flatMap]
        simp only [linesEnded_rows]
      · have hkind : ∀ s' ∈ s :: ss, s'.shownLines = rows s'.text := by
          intro s' hs'
          have hof : s'.kind = kind := by
            rw [← hgroup] at hs'
            simpa using (List.mem_filter.1 hs').2
          rw [Section.shownLines, hof, if_neg hgathered]
        rw [if_neg hgathered, if_neg hgathered, List.flatMap_congr hkind, linesEnded_flatMap,
          linesEnded, List.map_map]
        simp only [linesEnded_rows]
        rfl

theorem text_eq_linesEnded (m : Model) : m.text = linesEnded m.textLines := by
  have hmodules : linesEnded (m.modules.flatMap fun e => "" :: rows e.2) =
      String.join (m.modules.map fun e => "\n" ++ e.2 ++ "\n") := by
    rw [linesEnded_flatMap]
    simp only [linesEnded_cons, linesEnded_rows, String.empty_append, String.append_assoc]
  rw [text, textLines, linesEnded_append, linesEnded_cons, shown, List.flatMap_assoc,
    linesEnded_flatMap, hmodules]
  simp only [linesEnded_shownOfKind]
  rfl

end Model

/-! ## Blocks of lines -/

namespace Fragment

variable {p : Progress} {s : Section} {ls : List String}

/-- The lines are parsed to the section, up to blanks around the lines of its body. -/
def Opens (ls : List String) (s : Section) : Prop :=
  ∃ line rest body, ls = line :: body ∧ lineKind line = .opening s.kind s.keyword rest ∧
    (∀ l ∈ body, lineKind l = .plain) ∧
      trimmedLines ((if rest = "" then [] else [rest]) ++ body) = s.body

/-- What has been parsed so far, up to blanks around the lines of bodies. -/
def Progress.tidied (p : Progress) : Fragment :=
  ⟨p.closed.sections.map Section.tidy, p.closed.modules⟩

theorem take_plain {l : String} (hl : lineKind l = .plain) (hp : p.current = .inSection s) :
    p.take l = { p with current := .inSection { s with body := s.body ++ [l] } } := by
  unfold Progress.take
  rw [hl, hp]

/-- Plain lines behind the opening of a section are its body. -/
theorem foldl_take_plain (hls : ∀ l ∈ ls, lineKind l = .plain) (hp : p.current = .inSection s) :
    ls.foldl Progress.take p = { p with current := .inSection { s with body := s.body ++ ls } } := by
  induction ls generalizing p s with
  | nil =>
      rw [List.foldl_nil, List.append_nil]
      obtain ⟨done, current, warnings⟩ := p
      dsimp only at hp
      rw [hp]
  | cons l ls ih =>
      rw [List.foldl_cons, take_plain (hls l (by simp)) hp,
        ih (fun l' hl' => hls l' (List.mem_cons_of_mem _ hl')) rfl, List.append_assoc]
      rfl

/-- A block outside of auxiliary modules adds its section. -/
theorem foldl_take_opens (h : Opens ls s) (hp : p.current.isInside = false) :
    (ls.foldl Progress.take p).current.isInside = false ∧
      (ls.foldl Progress.take p).tidied =
        ⟨p.tidied.sections ++ [s], p.tidied.modules⟩ := by
  obtain ⟨line, rest, body, rfl, hkind, hbody, hs⟩ := h
  rw [List.foldl_cons, take_opening hkind hp, foldl_take_plain hbody rfl]
  refine ⟨rfl, ?_⟩
  unfold Progress.tidied
  simp only [Progress.closed, List.map_append, List.map_singleton, Section.tidy, hs]

/-- Blocks one after another add their sections. -/
theorem foldl_take_flatMap {α : Type} {as : List α} {f : α → List String} {g : α → Section}
    (h : ∀ a ∈ as, Opens (f a) (g a)) (hp : p.current.isInside = false) :
    ((as.flatMap f).foldl Progress.take p).current.isInside = false ∧
      ((as.flatMap f).foldl Progress.take p).tidied =
        ⟨p.tidied.sections ++ as.map g, p.tidied.modules⟩ := by
  induction as generalizing p with
  | nil => simpa using hp
  | cons a as ih =>
      obtain ⟨hinside, htidied⟩ := foldl_take_opens (h a List.mem_cons_self) hp
      rw [List.flatMap_cons, List.foldl_append]
      obtain ⟨hinside', htidied'⟩ := ih (fun b hb => h b (List.mem_cons_of_mem _ hb)) hinside
      refine ⟨hinside', ?_⟩
      rw [htidied', htidied]
      simp

/-- An empty line makes no difference. -/
theorem tidied_take_empty (p : Progress) : (p.take "").tidied = p.tidied := by
  have hblank : trimmedLines [""] = [] := rfl
  unfold Progress.take
  rw [lineKind_empty]
  cases hp : p.current with
  | outside =>
      unfold Progress.tidied Progress.closed
      simp only [hp]
  | inSection s =>
      unfold Progress.tidied Progress.closed
      simp only [hp, List.map_append, List.map_singleton, Section.tidy, trimmedLines_append, hblank,
        List.append_nil]
  | inModule name ls =>
      have htrim : trimEnd (unlines (ls ++ [""])) = trimEnd (unlines ls) := by
        by_cases hne : ls = []
        · subst hne
          rfl
        · have hfeed : ∀ b ∈ "\n".toList, isBlank b := List.forall_mem_singleton.2 isBlank_newline
          apply String.toList_injective
          rw [unlines_concat hne, String.append_empty, toList_trimEnd, toList_trimEnd,
            String.toList_append, rdropWhile_append_blanks _ hfeed]
      unfold Progress.tidied Progress.closed
      simp only [hp, htrim]

/-! ## Texts of modules -/

/-- The text of a module adds the module, wherever it stands. -/
theorem tidied_take_module {e : String × String} (he : IsModuleEntry e) (p : Progress) :
    ((rows e.2).foldl Progress.take p).tidied =
      ⟨p.tidied.sections, p.tidied.modules ++ [e]⟩ := by
  obtain ⟨header, rest, hrows, hkind, hrest⟩ := he.heads
  have htext : trimEnd (unlines (header :: rest)) = e.2 := by
    rw [← hrows, unlines_rows, he.endsSolid.trimEnd_eq]
  rw [hrows, List.foldl_cons, take_header hkind, if_neg he.notMain,
    foldl_take_inModule hrest rfl]
  unfold Progress.tidied
  rw [closed_inModule rfl, List.singleton_append, htext]

theorem tidied_take_modules {es : List (String × String)} (hes : ∀ e ∈ es, IsModuleEntry e)
    (p : Progress) :
    ((es.flatMap fun e => "" :: rows e.2).foldl Progress.take p).tidied =
      ⟨p.tidied.sections, p.tidied.modules ++ es⟩ := by
  induction es generalizing p with
  | nil => simp
  | cons e es ih =>
      rw [List.flatMap_cons, List.cons_append, List.foldl_cons, List.foldl_append,
        ih (fun e' he' => hes e' (List.mem_cons_of_mem _ he')),
        tidied_take_module (hes e List.mem_cons_self), tidied_take_empty]
      simp

end Fragment

/-! ## Shown sections -/

theorem isGathered_of_isDeclaration {kind : SectionKind} (h : kind.isDeclaration) :
    kind.isGathered := by
  cases kind <;> first | rfl | simp [SectionKind.isDeclaration] at h

/-- The rows of the section are plain, and only declarations have several rows in one line. -/
structure Section.IsReadable (s : Section) : Prop where
  opened : IsOpened s
  plain : ∀ l ∈ trimmedLines s.body, ∀ row ∈ rows l, lineKind row = .plain
  solid : ∀ l ∈ trimmedLines s.body, ∀ row ∈ rows l, IsSolid row.toList
  single : s.kind.isDeclaration = false → ∀ l ∈ trimmedLines s.body, '\n' ∉ l.toList

/-- The blanks in front of a line in a body. -/
def indent : String := "    "

section Shown

variable {s : Section} {l : String}

theorem isBlank_indent : ∀ c ∈ indent.toList, isBlank c :=
  List.all_eq_true.1 (by decide)

theorem not_mem_indent : '\n' ∉ indent.toList := by
  decide

theorem lineKind_indent (l : String) : lineKind (indent ++ l) = lineKind l := by
  have htrim : trimStart (indent ++ l) = trimStart l := by
    apply String.toList_injective
    rw [toList_trimStart, toList_trimStart, String.toList_append,
      List.dropWhile_append_of_pos isBlank_indent]
  unfold lineKind
  rw [htrim]

theorem trim_indent (l : String) : trim (indent ++ l) = trim l := by
  have htrim := trim_blanks_append isBlank_indent l.toList
  rwa [String.ofList_append, String.ofList_toList, String.ofList_toList] at htrim

/-- A keyword that stands alone opens a section. -/
theorem lineKind_keyword {word : String} {kind : SectionKind}
    (h : SectionKind.ofKeyword? word = some kind) : lineKind word = .opening kind word "" := by
  unfold SectionKind.ofKeyword? at h
  split at h
  all_goals first
    | (obtain rfl := Option.some.inj h; rfl)
    | simp at h

theorem newline_not_mem_keyword {word : String} {kind : SectionKind}
    (h : SectionKind.ofKeyword? word = some kind) : '\n' ∉ word.toList := fun hmem =>
  absurd (not_endsWord_of_ofKeyword? h '\n' hmem) (by decide)

theorem rows_indented (hfirst : '\n' ∉ s.keyword.toList) (ls : List String) :
    rows (s.keyword ++ String.join (ls.map ("\n    " ++ ·))) =
      s.keyword :: ls.flatMap fun l => rows (indent ++ l) := by
  have hmore (first : String) : rows (first ++ String.join (ls.map ("\n    " ++ ·))) =
      rows first ++ ls.flatMap fun l => rows (indent ++ l) := by
    induction ls generalizing first with
    | nil => simp
    | cons l ls ih =>
        have hline : first ++ ("\n    " ++ l) = first ++ "\n" ++ (indent ++ l) := by
          have hfeed : "\n    " = "\n" ++ indent := by decide
          rw [hfeed]
          simp only [String.append_assoc]
        rw [List.map_cons, String.join_cons, ← String.append_assoc, ih, hline, rows_append_newline,
          List.flatMap_cons, List.append_assoc]
  rw [hmore, rows_of_not_mem hfirst, List.singleton_append]

/-- A section is shown on one line, or on the line of its keyword and those of its body. -/
theorem Section.shownLines_eq (h : s.IsReadable) :
    (∃ l, trimmedLines s.body = [l] ∧ '\n' ∉ l.toList ∧ s.shownLines = [s.keyword ++ " " ++ l]) ∨
      s.shownLines = s.keyword :: (trimmedLines s.body).flatMap fun l => rows (indent ++ l) := by
  have hkeyword := newline_not_mem_keyword h.opened
  unfold Section.shownLines
  by_cases hkind : s.kind.isGathered
  · rw [if_pos hkind]
    exact .inr rfl
  · rw [if_neg hkind]
    unfold Section.text
    split
    · next hnil =>
        rw [hnil, rows_of_not_mem hkeyword]
        exact .inr rfl
    · next l hone =>
        have hdeclares : s.kind.isDeclaration = false :=
          Bool.eq_false_iff.2 fun hdeclares => hkind (isGathered_of_isDeclaration hdeclares)
        have hl : '\n' ∉ l.toList := h.single hdeclares l (by simp [hone])
        refine .inl ⟨l, hone, hl, rows_of_not_mem ?_⟩
        rw [String.toList_append, String.toList_append]
        simpa using ⟨hkeyword, hl⟩
    · exact .inr (rows_indented hkeyword _)

/-- The rows of an indented line. -/
theorem exists_rows_indent (l : String) :
    ∃ row more, rows l = row :: more ∧ rows (indent ++ l) = (indent ++ row) :: more := by
  obtain ⟨row, more, heq⟩ := List.exists_cons_of_ne_nil (rows_ne_nil l)
  exact ⟨row, more, heq, rows_append_left not_mem_indent heq⟩

/-- The lines of a shown section are parsed to it, with its body broken into rows. -/
theorem Section.opens_shownLines (h : s.IsReadable) : Opens s.shownLines s.rowed := by
  rcases Section.shownLines_eq h with ⟨l, hone, hl, hshown⟩ | hshown
  · have hrow : rows l = [l] := rows_of_not_mem hl
    have hsolid : IsSolid l.toList := h.solid l (by simp [hone]) l (by simp [hrow])
    refine ⟨_, l, [], hshown, lineKind_opening h.opened hsolid.trim_eq, by simp, ?_⟩
    rw [if_neg hsolid.ne_empty, List.append_nil, trimmedLines_singleton, hsolid.trim_eq,
      if_neg hsolid.ne_empty]
    simp only [Section.rowed, hone, List.flatMap_singleton, hrow]
  · refine ⟨_, "", _, hshown, lineKind_keyword h.opened, ?_, ?_⟩
    · intro row hrow
      obtain ⟨l, hl, hrow⟩ := List.mem_flatMap.1 hrow
      obtain ⟨first, more, heq, hindent⟩ := exists_rows_indent l
      have hplain := h.plain l hl
      rw [heq] at hplain
      rw [hindent] at hrow
      rcases List.mem_cons.1 hrow with rfl | hmore
      · rw [lineKind_indent]
        exact hplain first List.mem_cons_self
      · exact hplain row (List.mem_cons_of_mem _ hmore)
    · rw [if_pos rfl, List.nil_append, trimmedLines_flatMap, Section.rowed]
      refine List.flatMap_congr fun l hl => ?_
      obtain ⟨first, more, heq, hindent⟩ := exists_rows_indent l
      have hsolid := h.solid l hl
      have htrimmed := trimmedLines_of_isSolid hsolid
      rw [heq, trimmedLines_cons] at htrimmed
      rw [hindent, heq, trimmedLines_cons, trim_indent, htrimmed]

/-- No line of a shown section ends with a blank. -/
theorem Section.endsSolid_of_mem_shownLines (h : s.IsReadable) (hl : l ∈ s.shownLines) :
    '\n' ∉ l.toList ∧ EndsSolid l.toList := by
  have hkeyword := newline_not_mem_keyword h.opened
  rcases Section.shownLines_eq h with ⟨line, hone, hline, hshown⟩ | hshown
  · rw [hshown] at hl
    obtain rfl := List.mem_singleton.1 hl
    have hsolid : IsSolid line.toList :=
      h.solid line (by simp [hone]) line (by simp [rows_of_not_mem hline])
    rw [String.toList_append, String.toList_append]
    exact ⟨by simpa using ⟨hkeyword, hline⟩, hsolid.ends.append_left _⟩
  · rw [hshown] at hl
    rcases List.mem_cons.1 hl with rfl | hbody
    · exact ⟨hkeyword, endsSolid_keyword h.opened⟩
    · obtain ⟨line, hline, hrow⟩ := List.mem_flatMap.1 hbody
      refine ⟨not_mem_of_mem_rows hrow, ?_⟩
      obtain ⟨first, more, heq, hindent⟩ := exists_rows_indent line
      have hsolid := h.solid line hline
      rw [heq] at hsolid
      rw [hindent] at hrow
      rcases List.mem_cons.1 hrow with rfl | hmore
      · rw [String.toList_append]
        exact (hsolid first List.mem_cons_self).ends.append_left _
      · exact (hsolid l (List.mem_cons_of_mem _ hmore)).ends

/-- Bodies of other sections have one row in every line. -/
theorem Section.rowed_eq_tidy (h : s.IsReadable) (hkind : s.kind.isDeclaration = false) :
    s.rowed = s.tidy := by
  have hrows : (trimmedLines s.body).flatMap rows = trimmedLines s.body := by
    have hone : ∀ l ∈ trimmedLines s.body, rows l = [l] :=
      fun l hl => rows_of_not_mem (h.single hkind l hl)
    rw [List.flatMap_congr hone, List.flatMap_singleton']
  rw [Section.rowed, hrows, Section.tidy]

end Shown

/-! ## Whole models -/

/-- What a model shows can be parsed. -/
structure Model.IsReadable (m : Model) : Prop where
  sections : ∀ s ∈ Model.shown m.sections, s.IsReadable
  modules : ∀ e ∈ m.modules, IsModuleEntry e
  returns : ∀ e ∈ m.modules, '\r' ∉ e.2.toList

namespace Model

variable {m : Model}

theorem lines_text (h : m.IsReadable) : lines m.text = m.textLines := by
  have hlines : ∀ l ∈ m.textLines, '\n' ∉ l.toList ∧ l.toList.getLast? ≠ some '\r' := by
    unfold textLines
    refine List.forall_mem_append.2 ⟨List.forall_mem_cons.2 ⟨by decide, ?_⟩, ?_⟩
    · intro l hl
      obtain ⟨s, hs, hl⟩ := List.mem_flatMap.1 hl
      obtain ⟨hfeed, hsolid⟩ := Section.endsSolid_of_mem_shownLines (h.sections s hs) hl
      exact ⟨hfeed, hsolid.getLast?_ne (by decide)⟩
    · intro l hl
      obtain ⟨e, he, hl⟩ := List.mem_flatMap.1 hl
      rcases List.mem_cons.1 hl with rfl | hrow
      · decide
      · refine ⟨not_mem_of_mem_rows hrow, fun hlast => h.returns e he ?_⟩
        obtain ⟨p, hp, rfl⟩ := List.mem_map.1 hrow
        rw [String.toList_ofList] at hlast
        have hpart : IsCutOut (· == '\n') p e.2.toList := isCutOut_of_mem_pieces (by simp) hp
        exact hpart.isInfix.subset (List.mem_of_getLast? hlast)
  rw [text_eq_linesEnded]
  exact lines_linesEnded (fun l hl => (hlines l hl).1) fun l hl => (hlines l hl).2

/-- The text of a model is parsed to the sections that it shows, up to blanks around the lines of
their bodies, and to its modules. -/
theorem parse_text (h : m.IsReadable) :
    (parse m.text).sections.map Section.tidy = (shown m.sections).map Section.rowed ∧
      (parse m.text).modules = m.modules := by
  have hstart : (Progress.start.take "MODULE main").current.isInside = false := rfl
  have hparsed : (ofLines m.textLines).tidied =
      ⟨(shown m.sections).map Section.rowed, m.modules⟩ := by
    unfold ofLines textLines
    rw [List.cons_append, List.foldl_cons, List.foldl_append, tidied_take_modules h.modules]
    obtain ⟨-, htidied⟩ := foldl_take_flatMap
      (fun s hs => Section.opens_shownLines (h.sections s hs)) hstart
    rw [htidied]
    rfl
  unfold parse
  rw [lines_text h]
  exact ⟨congrArg Fragment.sections hparsed, congrArg Fragment.modules hparsed⟩

end Model

end Punctual
