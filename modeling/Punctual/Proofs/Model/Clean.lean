import Punctual.Proofs.Model.Conservation
import Punctual.Proofs.Model.Reparsing

/-!
# Names and types in a merged model

The content of a section is clean: it has no comment, no blank beside a line feed and, if keywords
stand at the beginning of lines only, no keyword (`Section.isClean_content`). What is cut out of it
is as clean, the names and types of its declarations among them. So every declaration of a merged
model, whose type may span lines, is shown in rows that open nothing (`Declared.IsShowable.line_spec`),
and sections that show declarations are read as these (`Section.declared_of_content`).
-/

namespace Punctual

open Text Fragment

/-! ## Clean characters -/

/-- No comment, no blank beside a line feed and no keyword. -/
structure IsClean (cs : List Char) : Prop where
  firm : IsFirm cs
  noComment : HasNoComment cs
  keywordFree : isKeywordFree cs

section Clean

variable {c : Char} {xs ys cs : List Char}

theorem IsClean.cut (h : IsClean cs) (hxs : IsCutOut isSeparator xs cs) : IsClean xs where
  firm := List.IsChain.infix h.firm hxs.isInfix
  noComment := List.IsChain.infix h.noComment hxs.isInfix
  keywordFree := isKeywordFree_of_isCutOut hxs h.keywordFree

theorem isClean_nil : IsClean [] :=
  ⟨List.isChain_nil, List.isChain_nil, isKeywordFree_nil⟩

/-- Clean characters on both sides of a separator. -/
theorem IsClean.append_cons (hxs : IsClean xs) (hys : IsClean ys) (hc : isSeparator c)
    (hfirm : IsFirm (xs ++ c :: ys)) : IsClean (xs ++ c :: ys) := by
  have hdash : c ≠ '-' := by
    rintro rfl
    exact absurd hc (by decide)
  refine ⟨hfirm, ?_, ?_⟩
  · refine hxs.noComment.append (List.isChain_cons.2 ⟨fun y _ h => hdash h.1, hys.noComment⟩) ?_
    intro x _ y hy
    obtain rfl : c = y := by simpa using hy
    exact fun h => hdash h.2
  · rw [isKeywordFree_append_cons hc, hxs.keywordFree, hys.keywordFree]
    rfl

/-- A clean row opens nothing. -/
theorem IsClean.lineKind_eq {row : String} (h : IsClean row.toList) : lineKind row = .plain := by
  apply lineKind_of_isKeywordFree
  rw [beforeComment_of_hasNoComment h.noComment]
  exact h.keywordFree

theorem IsClean.stripComment_eq {row : String} (h : IsClean row.toList) :
    stripComment row = row := by
  rw [stripComment, beforeComment_of_hasNoComment h.noComment, String.ofList_toList]

theorem isClean_of_mem_rows {s row : String} (h : IsClean s.toList) (hrow : row ∈ rows s) :
    IsClean row.toList := by
  obtain ⟨p, hp, rfl⟩ := List.mem_map.1 hrow
  rw [String.toList_ofList]
  exact h.cut (isCutOut_of_mem_pieces (by decide) hp)

theorem isSolid_of_mem_rows {s row : String} (h : IsFirm s.toList) (hs : IsSolid s.toList)
    (hrow : row ∈ rows s) : IsSolid row.toList := by
  obtain ⟨p, hp, rfl⟩ := List.mem_map.1 hrow
  rw [String.toList_ofList]
  exact h.isSolid_of_mem_pieces hs hp

/-- Clean lines without blanks at their ends are joined to a clean text. -/
theorem isClean_unlines {ls : List String} (hclean : ∀ l ∈ ls, IsClean l.toList)
    (hsolid : ∀ l ∈ ls, IsSolid l.toList) (hfeed : ∀ l ∈ ls, '\n' ∉ l.toList) :
    IsClean (unlines ls).toList := by
  induction ls with
  | nil => exact isClean_nil
  | cons l ls ih =>
      have hl := hclean l List.mem_cons_self
      by_cases hlast : ls = []
      · subst hlast
        exact hl
      · have hfirm := (isFirm_unlines (List.cons_ne_nil l ls) hsolid hfeed).1
        rw [toList_unlines_cons hlast] at hfirm ⊢
        refine hl.append_cons ?_ (by decide) hfirm
        exact ih (fun l' hl' => hclean l' (List.mem_cons_of_mem _ hl'))
          (fun l' hl' => hsolid l' (List.mem_cons_of_mem _ hl'))
          fun l' hl' => hfeed l' (List.mem_cons_of_mem _ hl')

end Clean

/-! ## Contents of sections -/

/-- If keywords stand at the beginning of lines only, the content of a section is clean. -/
theorem Section.isClean_content {source : String} {s : Section}
    (h : (lines source).all keywordsLead) (hs : s ∈ (parse source).sections) :
    IsClean s.content.toList := by
  have hline : ∀ l ∈ trimmedLines (s.body.map stripComment), IsClean l.toList ∧ '\n' ∉ l.toList := by
    intro l hl
    obtain ⟨hmem, -⟩ := List.mem_filter.1 hl
    obtain ⟨stripped, hstripped, rfl⟩ := List.mem_map.1 hmem
    obtain ⟨raw, hraw, rfl⟩ := List.mem_map.1 hstripped
    have hpart : IsCutOut isSeparator (trim (stripComment raw)).toList
        (beforeComment raw.toList) := by
      have htrim := isCutOut_trim (fun c => isSeparator_of_isBlank) (stripComment raw)
      rwa [stripComment, String.toList_ofList] at htrim
    have hfeed : '\n' ∉ (trim (stripComment raw)).toList := fun hmem =>
      not_mem_of_mem_body hs hraw
        ((beforeComment_isPrefix raw.toList).subset (hpart.isInfix.subset hmem))
    have hfree := isKeywordFree_of_mem_body h hs hraw
    refine ⟨⟨isFirm_of_not_mem hfeed, ?_, ?_⟩, hfeed⟩
    · exact List.IsChain.infix (hasNoComment_beforeComment raw.toList) hpart.isInfix
    · exact isKeywordFree_of_isCutOut hpart hfree
  exact isClean_unlines (fun l hl => (hline l hl).1) (fun l => isSolid_of_mem_trimmedLines)
    fun l hl => (hline l hl).2

/-! ## Declarations -/

theorem semicolonPieces_eq_splitOn (cs : List Char) : semicolonPieces cs = cs.splitOn ';' := by
  induction cs with
  | nil => rfl
  | cons c cs ih =>
      rw [List.splitOn_cons_eq_if_modifyHead, ← ih, semicolonPieces]
      by_cases hc : c = ';'
      · simp [hc]
      · cases hpieces : semicolonPieces cs with
        | nil => exact absurd (ih.symm.trans hpieces) (List.splitOn_ne_nil _ _)
        | cons p ps => simp [hc]

/-- The name and the type of a declaration are cut out of it. -/
theorem isCutOut_of_parseDeclaration {declaration name type : String}
    (h : parseDeclaration declaration = .ok (name, type)) :
    IsCutOut isSeparator name.toList declaration.toList ∧
      IsCutOut isSeparator type.toList declaration.toList ∧ trim type = type := by
  have hblank : ∀ c, isBlank c → isSeparator c := fun c => isSeparator_of_isBlank
  have hsemicolon : ∀ c, (c == ';') = true → isSeparator c := by
    intro c hc
    obtain rfl := beq_iff_eq.1 hc
    decide
  unfold parseDeclaration at h
  dsimp only at h
  split at h
  · simp at h
  · next before after hcut =>
      split at h
      · obtain ⟨rfl, rfl⟩ := Prod.mk.inj (Except.ok.inj h)
        obtain ⟨⟨xs, ys⟩, hfound, heq⟩ := Option.map_eq_some_iff.1 hcut
        obtain ⟨rfl, rfl⟩ := Prod.mk.inj heq
        obtain ⟨hsplit, -⟩ := cutAt?_eq_some_iff.1 hfound
        -- what is cut at the colon is itself cut out of the declaration
        have hwhole : IsCutOut isSeparator (xs ++ ':' :: ys) declaration.toList := by
          rw [← hsplit]
          refine (isCutOut_trim hblank _).trans ?_
          rw [String.toList_ofList, dropEndWhile_eq]
          exact (isCutOut_rdropWhile hsemicolon _).trans (isCutOut_trim hblank _)
        have hname : IsCutOut isSeparator (trim (.ofList xs)).toList xs := by
          simpa using isCutOut_trim hblank (.ofList xs)
        have htype : IsCutOut isSeparator (trim (.ofList ys)).toList ys := by
          simpa using isCutOut_trim hblank (.ofList ys)
        refine ⟨(hname.trans ?_).trans hwhole, (htype.trans ?_).trans hwhole, trim_trim _⟩
        · exact isCutOut_append_right (by simpa using by decide) xs
        · rw [List.append_cons]
          exact isCutOut_append_left (by simpa using by decide) ys
      · simp at h

/-- A variable whose declaration can be read back wherever it is shown. -/
structure Declared.IsShowable (d : Declared) : Prop where
  name : IsVariableName d.name
  type : IsTypeText d.type
  cleanName : IsClean d.name.toList
  cleanType : IsClean d.type.toList
  noSemicolon : ';' ∉ d.type.toList

/-- A variable whose declaration can be read back from a line of its own. -/
structure Declared.IsLegible (d : Declared) : Prop where
  name : IsVariableName d.name
  type : IsTypeText d.type
  noSemicolon : ';' ∉ d.type.toList

theorem Declared.IsShowable.isLegible {d : Declared} (h : d.IsShowable) : d.IsLegible :=
  ⟨h.name, h.type, h.noSemicolon⟩

/-- What the declarations of a parsed section declare can be shown. -/
theorem isShowable_of_mem_declared {source : String} {s : Section} {d : Declared}
    (h : (lines source).all keywordsLead) (hs : s ∈ (parse source).sections)
    (hd : d ∈ s.declared) : d.IsShowable := by
  unfold Section.declared at hd
  split at hd
  · next kind hkind =>
      obtain ⟨text, htext, hread⟩ := List.mem_filterMap.1 hd
      obtain ⟨⟨name, type⟩, hparse, rfl⟩ := Option.map_eq_some_iff.1 hread
      have hparse : parseDeclaration text = .ok (name, type) := by
        cases hp : parseDeclaration text with
        | ok entry =>
            rw [hp] at hparse
            exact congrArg Except.ok (Option.some.inj hparse)
        | error e =>
            rw [hp] at hparse
            simp [Except.toOption] at hparse
      obtain ⟨hmem, -⟩ := List.mem_filter.1 htext
      obtain ⟨piece, hpiece, rfl⟩ := List.mem_map.1 hmem
      rw [semicolonPieces_eq_splitOn] at hpiece
      have hclean := (Section.isClean_content h hs).cut
        (isCutOut_of_mem_splitOn (by decide) hpiece)
      obtain ⟨hnamePart, htypePart, htrim⟩ := isCutOut_of_parseDeclaration hparse
      obtain ⟨hname, htype⟩ := isVariableName_of_parseDeclaration hparse
      rw [String.toList_ofList] at hnamePart htypePart
      have hsemicolon : ';' ∉ type.toList := fun hmem =>
        not_mem_of_mem_splitOn hpiece (htypePart.isInfix.subset hmem)
      have hsolid : EndsSolid type.toList := by
        rw [← htrim]
        exact endsSolid_trim (htrim.symm ▸ htype)
      exact ⟨hname, ⟨htrim, hsolid, fun hlast => hsemicolon (List.mem_of_getLast? hlast)⟩,
        hclean.cut hnamePart, hclean.cut htypePart, hsemicolon⟩
  · simp at hd

/-! ## Declarations as they are shown -/

namespace Declared

variable {d : Declared}

/-- The declaration as a line, which may be broken into rows by its type. -/
def line (d : Declared) : String :=
  d.name ++ " : " ++ d.type ++ ";"

theorem IsShowable.isSolid_type (h : d.IsShowable) : IsSolid d.type.toList := by
  have hne : trim d.type ≠ "" := by
    rw [h.type.trimmed]
    exact h.type.endsSolid.ne_empty
  have hsolid := isSolid_trim hne
  rwa [h.type.trimmed] at hsolid

theorem ne_newline_of_not_isBlank {c : Char} (h : isBlank c = false) : c ≠ '\n' := by
  rintro rfl
  rw [isBlank_newline] at h
  simp at h

theorem IsShowable.line_spec (h : d.IsShowable) :
    IsClean d.line.toList ∧ IsSolid d.line.toList := by
  obtain ⟨c, cs, hname, hc⟩ := h.name.exists_cons
  obtain ⟨e, es, htype, he⟩ := h.isSolid_type.starts
  have hline : d.line.toList =
      d.name.toList ++ ' ' :: ([] ++ ':' :: ([] ++ ' ' :: (d.type.toList ++ ';' :: []))) := by
    rw [line, declarationLine_eq, String.toList_ofList]
    rfl
  have hnameLast : ∀ x ∈ d.name.toList.getLast?, x ≠ '\n' := fun x hx =>
    ne_newline_of_not_isBlank (isBlank_of_isVariableChar (h.name.chars x (List.mem_of_getLast? hx)))
  have htypeLast : ∀ x ∈ d.type.toList.getLast?, x ≠ '\n' := by
    obtain ⟨x, hx, hblank⟩ := endsSolid_iff.1 h.type.endsSolid
    intro y hy
    obtain rfl : x = y := Option.some.inj (hx.symm.trans hy)
    exact ne_newline_of_not_isBlank hblank
  have htypeHead : ∀ x ∈ (d.type.toList ++ ';' :: []).head?, x ≠ '\n' := by
    intro x hx
    obtain rfl : e = x := by simpa [htype] using hx
    exact ne_newline_of_not_isBlank he
  rw [hline]
  refine ⟨?_, ⟨c, _, by rw [hname]; rfl, hc⟩, ?_⟩
  · have hsemicolon := h.cleanType.append_cons isClean_nil (c := ';') (by decide)
      (h.cleanType.firm.append_cons isClean_nil.firm (by decide) htypeLast (by simp))
    have hblank := isClean_nil.append_cons hsemicolon (c := ' ') (by decide)
      (isClean_nil.firm.append_cons hsemicolon.firm (by decide) (by simp) htypeHead)
    have hcolon := isClean_nil.append_cons hblank (c := ':') (by decide)
      (isClean_nil.firm.append_cons hblank.firm (by decide) (by simp) (by simp))
    exact h.cleanName.append_cons hcolon (by decide)
      (h.cleanName.firm.append_cons hcolon.firm (by decide) hnameLast (by simp))
  · refine ⟨d.name.toList ++ ' ' :: ':' :: ' ' :: d.type.toList, ';', by simp, by decide⟩

end Declared

/-! ## Declarations read back -/

/-- Blanks around a declaration make no difference. -/
theorem parseDeclaration_congr {s t : String} (h : trim s = trim t) :
    parseDeclaration s = parseDeclaration t := by
  unfold parseDeclaration
  rw [h]

/-- The declarations in the content of a section. -/
def declarationsIn (cs : List Char) : List String :=
  ((semicolonPieces cs).map .ofList).filter fun d => !isBlankText d

theorem declarationsIn_append_cons {xs ys : List Char} (hxs : ';' ∉ xs) {x : Char} (hx : x ∈ xs)
    (hblank : isBlank x = false) :
    declarationsIn (xs ++ ';' :: ys) = .ofList xs :: declarationsIn ys := by
  have hkept : isBlankText (.ofList xs) = false := by
    rw [isBlankText, String.toList_ofList, List.all_eq_false]
    exact ⟨x, hx, by simp [hblank]⟩
  unfold declarationsIn
  rw [semicolonPieces_eq_splitOn, semicolonPieces_eq_splitOn, List.splitOn_append_cons_self,
    List.splitOn_eq_singleton hxs, List.singleton_append, List.map_cons,
    List.filter_cons_of_pos (by simp [hkept])]

theorem semicolon_not_mem_of_blanks {bs : List Char} (h : ∀ b ∈ bs, isBlank b) : ';' ∉ bs :=
  fun hmem => absurd (h ';' hmem) (by decide)

theorem declarationsIn_blanks {bs : List Char} (h : ∀ b ∈ bs, isBlank b) :
    declarationsIn bs = [] := by
  have hdropped : isBlankText (.ofList bs) = true := by
    rw [isBlankText, String.toList_ofList]
    exact List.all_eq_true.2 h
  unfold declarationsIn
  rw [semicolonPieces_eq_splitOn, List.splitOn_eq_singleton (semicolon_not_mem_of_blanks h),
    List.map_singleton, List.filter_cons_of_neg (by simp [hdropped]), List.filter_nil]

/-- A shown declaration without its semicolon. -/
def Declared.chars (d : Declared) : List Char :=
  d.name.toList ++ ' ' :: ':' :: ' ' :: d.type.toList

/-- The first of several lines, and blanks in front of the others. -/
theorem exists_blanks_lines (d : Declared) (ds : List Declared) :
    ∃ front, (∀ b ∈ front, isBlank b) ∧ (unlines ((d :: ds).map Declared.line)).toList =
      d.chars ++ ';' :: (front ++ (unlines (ds.map Declared.line)).toList) := by
  have hline : d.line.toList = d.chars ++ [';'] := by
    rw [Declared.line, declarationLine_eq, String.toList_ofList]
    simp [Declared.chars]
  by_cases hlast : ds.map Declared.line = []
  · refine ⟨[], by simp, ?_⟩
    rw [List.map_cons, hlast, unlines, unlines, String.intercalate_singleton, hline]
    rfl
  · refine ⟨['\n'], List.forall_mem_singleton.2 isBlank_newline, ?_⟩
    rw [List.map_cons, toList_unlines_cons hlast, hline]
    simp

/-- Lines that show declarations are read as these. -/
theorem map_parseDeclaration_lines {ds : List Declared} (hds : ∀ d ∈ ds, d.IsLegible)
    {front : List Char} (hfront : ∀ b ∈ front, isBlank b) :
    (declarationsIn (front ++ (unlines (ds.map Declared.line)).toList)).map parseDeclaration =
      ds.map fun d => .ok d.entry := by
  induction ds generalizing front with
  | nil =>
      rw [List.map_nil, unlines, String.intercalate_nil, declarationsIn_blanks]
      · rfl
      · simpa using hfront
  | cons d ds ih =>
      have hd := hds d List.mem_cons_self
      obtain ⟨front', hfront', heq⟩ := exists_blanks_lines d ds
      obtain ⟨c, cs, hname, hc⟩ := hd.name.exists_cons
      have hsemicolon : ';' ∉ front ++ d.chars := by
        rw [List.mem_append, not_or]
        refine ⟨semicolon_not_mem_of_blanks hfront, ?_⟩
        simpa [Declared.chars] using ⟨hd.name.not_mem (by decide), hd.noSemicolon⟩
      have hsolid : c ∈ front ++ d.chars := by simp [Declared.chars, hname]
      have hread : parseDeclaration (.ofList (front ++ d.chars)) = .ok d.entry := by
        rw [parseDeclaration_congr (trim_blanks_append hfront d.chars)]
        have hshown := parseDeclaration_shown hd.name hd.type [] (by simp)
        rwa [List.append_nil] at hshown
      rw [heq, ← List.append_assoc, declarationsIn_append_cons hsemicolon hsolid hc,
        List.map_cons, hread, ih (fun d' hd' => hds d' (List.mem_cons_of_mem _ hd')) hfront',
        List.map_cons]

/-- The variable that a declaration gives, if it was read. -/
def ofParsed (kind : VariableKind) (r : Except CombineError (String × String)) : Option Declared :=
  r.toOption.map fun entry => ⟨kind, entry.1, entry.2⟩

theorem readDeclared?_eq (kind : VariableKind) :
    readDeclared? kind = ofParsed kind ∘ parseDeclaration := by
  funext text
  rw [Function.comp_apply, ofParsed, readDeclared?]

/-- A section whose content shows variables of its kind declares them. -/
theorem Section.declared_of_content {s : Section} {kind : VariableKind} {ds : List Declared}
    (hkind : s.kind = kind.sectionKind) (hds : ∀ d ∈ ds, d.IsLegible)
    (hof : ∀ d ∈ ds, d.kind = kind)
    (hcontent : s.content = unlines (ds.map Declared.line)) :
    s.declared = ds ∧ ∀ text ∈ s.declarations, ∃ entry, parseDeclaration text = .ok entry := by
  have hread : s.declarations.map parseDeclaration = ds.map fun d => .ok d.entry := by
    have hlines := @map_parseDeclaration_lines ds hds [] (by simp)
    rwa [List.nil_append, ← hcontent] at hlines
  constructor
  · have hvariable : kind.sectionKind.variableKind? = some kind := by cases kind <;> rfl
    have hback : ∀ d ∈ ds, (ofParsed kind ∘ fun d => .ok d.entry) d = some d := by
      rintro ⟨k, name, type⟩ hd
      obtain rfl := hof _ hd
      rfl
    unfold Section.declared
    rw [hkind, hvariable]
    dsimp only
    rw [readDeclared?_eq, ← List.filterMap_map, hread, List.filterMap_map,
      List.filterMap_congr hback, List.filterMap_some]
  · intro text htext
    have hmem := List.mem_map_of_mem (f := parseDeclaration) htext
    rw [hread] at hmem
    obtain ⟨d, -, hd⟩ := List.mem_map.1 hmem
    exact ⟨d.entry, hd.symm⟩

/-- The lines of shown declarations are the content of the section that is read from their rows. -/
theorem content_rowed {s : Section} {ds : List Declared} (hds : ∀ d ∈ ds, d.IsShowable)
    (hbody : s.body = ds.map Declared.line) :
    s.rowed.content = unlines (ds.map Declared.line) := by
  have hlines : ∀ l ∈ ds.map Declared.line, IsClean l.toList ∧ IsSolid l.toList := by
    intro l hl
    obtain ⟨d, hd, rfl⟩ := List.mem_map.1 hl
    exact (hds d hd).line_spec
  have hrows : ∀ row ∈ (ds.map Declared.line).flatMap rows,
      IsClean row.toList ∧ IsSolid row.toList := by
    intro row hrow
    obtain ⟨l, hl, hrow⟩ := List.mem_flatMap.1 hrow
    obtain ⟨hclean, hsolid⟩ := hlines l hl
    exact ⟨isClean_of_mem_rows hclean hrow, isSolid_of_mem_rows hclean.firm hsolid hrow⟩
  have hstripped : ((ds.map Declared.line).flatMap rows).map stripComment =
      (ds.map Declared.line).flatMap rows :=
    (List.map_congr_left fun row hrow => (hrows row hrow).1.stripComment_eq).trans (List.map_id _)
  unfold Section.content Section.rowed
  dsimp only
  rw [hbody, trimmedLines_of_isSolid fun l hl => (hlines l hl).2, hstripped,
    trimmedLines_of_isSolid fun row hrow => (hrows row hrow).2, unlines_flatMap_rows]

end Punctual
