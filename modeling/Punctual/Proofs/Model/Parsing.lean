import Punctual.Model.Fragment
import Punctual.Proofs.Text.Lines

/-!
# Parsing model texts

Whether a line belongs to an auxiliary module depends on the headers before it only (`endsInside`),
so that joining texts, trimming them and cutting them into lines again does not change it. A line
that opens a section becomes a section of its own unless the text in front of it ends inside an
auxiliary module, where it is swallowed (`parse_of_outside`, `parse_of_inside`).
-/

namespace Punctual.Fragment

open Text

/-! ## Kinds of lines -/

theorem firstWord_append_blanks (cs : List Char) {bs : List Char} (h : ∀ b ∈ bs, isBlank b) :
    firstWord (cs ++ bs) = firstWord cs := by
  unfold firstWord
  induction cs with
  | nil =>
      cases bs with
      | nil => rfl
      | cons b bs => simp [endsWord, h b (by simp)]
  | cons c cs ih => simp only [List.cons_append, List.takeWhile_cons, ih]

/-- Blanks behind a line do not change its kind. -/
theorem lineKind_append_blanks (cs : List Char) {bs : List Char} (h : ∀ b ∈ bs, isBlank b) :
    lineKind (.ofList (cs ++ bs)) = lineKind (.ofList cs) := by
  obtain ⟨bs', hbs', heq⟩ := dropWhile_append_blanks cs h
  have hshort : (firstWord (cs.dropWhile isBlank)).length ≤ (cs.dropWhile isBlank).length :=
    (List.takeWhile_sublist _).length_le
  unfold lineKind
  simp only [toList_trimStart, String.toList_ofList, heq, firstWord_append_blanks _ hbs',
    List.drop_append_of_le_length hshort, trim_append_blanks _ hbs']

/-- An empty line is plain. -/
theorem lineKind_empty : lineKind "" = .plain := by
  decide

theorem firstWord_append {word : List Char} (h : ∀ c ∈ word, endsWord c = false)
    (rest : List Char) : firstWord (word ++ ' ' :: rest) = word := by
  unfold firstWord
  rw [List.takeWhile_append_of_pos (by simpa using h), List.takeWhile_cons_of_neg (by decide),
    List.append_nil]

/-- The kind of a line depends on its first word. -/
theorem lineKind_of_word {line word : String} {rest : List Char}
    (hline : (trimStart line).toList = word.toList ++ ' ' :: rest)
    (hword : ∀ c ∈ word.toList, endsWord c = false) (hmodule : word ≠ moduleKeyword) :
    lineKind line =
      match SectionKind.ofKeyword? word with
      | some kind => .opening kind word (trim (.ofList rest))
      | none => .plain := by
  have hrest : trim (.ofList (' ' :: rest)) = trim (.ofList rest) := by
    apply String.toList_injective
    rw [toList_trim, toList_trim, String.toList_ofList, String.toList_ofList,
      List.dropWhile_cons_of_pos (by decide)]
  unfold lineKind
  cases hkind : SectionKind.ofKeyword? word with
  | none =>
      simp only [hline, firstWord_append hword, String.ofList_toList, if_neg hmodule, hkind]
  | some kind =>
      simp only [hline, firstWord_append hword, String.ofList_toList, List.drop_left, hrest,
        if_neg hmodule, hkind]

/-- No keyword has a character that would end it. -/
theorem not_endsWord_of_ofKeyword? {word : String} {kind : SectionKind}
    (h : SectionKind.ofKeyword? word = some kind) : ∀ c ∈ word.toList, endsWord c = false := by
  have hall : word.toList.all (fun c => !endsWord c) = true := by
    unfold SectionKind.ofKeyword? at h
    split at h
    all_goals first
      | decide
      | simp at h
  intro c hc
  simpa using List.all_eq_true.1 hall c hc

/-- A line of a keyword and some text opens a section, whose body begins with the trimmed text. -/
theorem lineKind_opening_trim {word : String} {kind : SectionKind}
    (hkind : SectionKind.ofKeyword? word = some kind) (rest : String) :
    lineKind (word ++ " " ++ rest) = .opening kind word (trim rest) := by
  have hword := not_endsWord_of_ofKeyword? hkind
  have hmodule : word ≠ moduleKeyword := by
    rintro rfl
    simp [moduleKeyword, SectionKind.ofKeyword?] at hkind
  have hline : (trimStart (word ++ " " ++ rest)).toList = word.toList ++ ' ' :: rest.toList := by
    have hshown : (word ++ " " ++ rest).toList = word.toList ++ ' ' :: rest.toList := by
      rw [String.toList_append, String.toList_append, List.append_assoc]
      rfl
    rw [toList_trimStart, hshown]
    cases hcs : word.toList with
    | nil =>
        obtain rfl := String.toList_eq_nil_iff.1 hcs
        simp [SectionKind.ofKeyword?] at hkind
    | cons c cs =>
        have hc : isBlank c = false := by
          have hends := hword c (by simp [hcs])
          unfold endsWord at hends
          exact (Bool.or_eq_false_iff.1 hends).1
        rw [List.cons_append, List.dropWhile_cons_of_neg (by simp [hc])]
  rw [lineKind_of_word hline hword hmodule, hkind, String.ofList_toList]

theorem lineKind_opening {word rest : String} {kind : SectionKind}
    (hkind : SectionKind.ofKeyword? word = some kind) (hrest : trim rest = rest) :
    lineKind (word ++ " " ++ rest) = .opening kind word rest := by
  rw [lineKind_opening_trim hkind, hrest]

theorem lineKind_claim {claim : String} (h : trim claim = claim) :
    lineKind ("LTLSPEC " ++ claim) = .opening .spec "LTLSPEC" claim := by
  have hword : "LTLSPEC " = "LTLSPEC" ++ " " := by decide
  rw [hword]
  exact lineKind_opening rfl h

/-! ## Inside auxiliary modules -/

/-- The lines taken so far end in a module other than `main`. -/
def Current.isInside : Current → Bool
  | .inModule _ _ => true
  | _ => false

/-- Whether the text is inside an auxiliary module after one more line. -/
def staysInside (inside : Bool) (line : String) : Bool :=
  match lineKind line with
  | .header name => name ≠ mainModule
  | _ => inside

/-- Whether lines end inside an auxiliary module. -/
def endsInside (inside : Bool) (ls : List String) : Bool :=
  ls.foldl staysInside inside

/-- The same for the pieces of a text. -/
def piecesEndInside (inside : Bool) (cs : List Char) : Bool :=
  endsInside inside ((pieces cs).map .ofList)

theorem take_header {p : Progress} {line name : String} (h : lineKind line = .header name) :
    p.take line = { p with
      done := p.closed
      current := if name = mainModule then .outside else .inModule name [line] } := by
  unfold Progress.take
  rw [h]

/-- Any other line inside an auxiliary module belongs to it. -/
theorem take_inModule {p : Progress} {line name : String} {ls : List String}
    (h : ∀ next, lineKind line ≠ .header next) (hp : p.current = .inModule name ls) :
    p.take line = { p with current := .inModule name (ls ++ [line]) } := by
  unfold Progress.take
  rw [hp]
  cases hkind : lineKind line with
  | header next => exact absurd hkind (h next)
  | opening kind keyword rest => rfl
  | plain => rfl

theorem take_opening {p : Progress} {line keyword rest : String} {kind : SectionKind}
    (h : lineKind line = .opening kind keyword rest) (hp : p.current.isInside = false) :
    p.take line = { p with
      done := p.closed
      current := .inSection ⟨kind, keyword, if rest = "" then [] else [rest]⟩ } := by
  unfold Progress.take
  rw [h]
  cases hcurrent : p.current with
  | outside => rfl
  | inSection s => rfl
  | inModule name ls => simp [hcurrent, Current.isInside] at hp

theorem closed_inModule {p : Progress} {name : String} {ls : List String}
    (hp : p.current = .inModule name ls) :
    p.closed = ⟨p.done.sections, p.done.modules ++ [(name, trimEnd (unlines ls))]⟩ := by
  unfold Progress.closed
  rw [hp]

theorem exists_inModule {c : Current} (h : c.isInside = true) :
    ∃ name ls, c = .inModule name ls := by
  cases c with
  | outside => simp [Current.isInside] at h
  | inSection s => simp [Current.isInside] at h
  | inModule name ls => exact ⟨name, ls, rfl⟩

theorem ofLines_concat (ls : List String) (l : String) :
    ofLines (ls ++ [l]) = (ofLines ls).take l :=
  List.foldl_concat _ _ _ _

theorem isInside_take (p : Progress) (line : String) :
    (p.take line).current.isInside = staysInside p.current.isInside line := by
  unfold Progress.take staysInside
  cases lineKind line with
  | header name => by_cases hname : name = mainModule <;> simp [hname, Current.isInside]
  | opening kind keyword rest => cases p.current <;> rfl
  | plain => cases p.current <;> rfl

theorem staysInside_of_ne_header {line : String} (h : ∀ name, lineKind line ≠ .header name)
    (inside : Bool) : staysInside inside line = inside := by
  unfold staysInside
  split
  · next name hheader => exact absurd hheader (h name)
  · rfl

/-- The lines of the current module end with the line that was taken last. -/
theorem exists_concat_of_take {p : Progress} {line name : String} {ls : List String}
    (h : (p.take line).current = .inModule name ls) : ∃ front, ls = front ++ [line] := by
  by_cases hheader : ∃ next, lineKind line = .header next
  · obtain ⟨next, hkind⟩ := hheader
    rw [take_header hkind] at h
    dsimp only at h
    split at h
    · simp at h
    · exact ⟨[], (Current.inModule.inj h).2.symm⟩
  · have hkind : ∀ next, lineKind line ≠ .header next := by simpa using hheader
    cases hinside : p.current.isInside with
    | true =>
        obtain ⟨name', ls', hp⟩ := exists_inModule hinside
        rw [take_inModule hkind hp] at h
        exact ⟨ls', (Current.inModule.inj h).2.symm⟩
    | false =>
        have hstays := isInside_take p line
        rw [h, hinside, staysInside_of_ne_header hkind] at hstays
        simp [Current.isInside] at hstays

theorem isInside_ofLines (ls : List String) :
    (ofLines ls).current.isInside = endsInside false ls := by
  induction ls using List.reverseRecOn with
  | nil => rfl
  | append_singleton ls l ih =>
      rw [ofLines_concat, isInside_take, ih, endsInside, endsInside, List.foldl_concat]

theorem endsInside_append (inside : Bool) (ls ms : List String) :
    endsInside inside (ls ++ ms) = endsInside (endsInside inside ls) ms :=
  List.foldl_append

theorem endsInside_singleton (inside : Bool) (l : String) :
    endsInside inside [l] = staysInside inside l := by
  rw [endsInside, List.foldl_cons, List.foldl_nil]

theorem staysInside_append_blanks (inside : Bool) (cs : List Char) {bs : List Char}
    (h : ∀ b ∈ bs, isBlank b) :
    staysInside inside (.ofList (cs ++ bs)) = staysInside inside (.ofList cs) := by
  unfold staysInside
  rw [lineKind_append_blanks cs h]

theorem staysInside_empty (inside : Bool) : staysInside inside "" = inside := by
  unfold staysInside
  rw [lineKind_empty]

theorem piecesEndInside_append_newline (inside : Bool) (cs ds : List Char) :
    piecesEndInside inside (cs ++ '\n' :: ds) =
      piecesEndInside (piecesEndInside inside cs) ds := by
  unfold piecesEndInside
  rw [pieces_append_newline, List.map_append, endsInside_append]

/-- Blanks behind a text make no difference, whatever lines they form. -/
theorem piecesEndInside_append_blanks (inside : Bool) (cs : List Char) {bs : List Char}
    (h : ∀ b ∈ bs, isBlank b) :
    piecesEndInside inside (cs ++ bs) = piecesEndInside inside cs := by
  induction bs using List.reverseRecOn with
  | nil => rw [List.append_nil]
  | append_singleton bs b ih =>
      rw [← ih fun b' hb' => h b' (List.mem_append_left _ hb'), ← List.append_assoc]
      by_cases hb : b = '\n'
      · have hempty (inside : Bool) : piecesEndInside inside [] = inside :=
          staysInside_empty inside
        rw [hb, piecesEndInside_append_newline, hempty]
      · obtain ⟨init, last, hpieces, hmore⟩ := pieces_append_single (cs ++ bs) hb
        have hblank : ∀ b' ∈ [b], isBlank b' := by simpa using h b (by simp)
        unfold piecesEndInside
        rw [hpieces, hmore, List.map_append, List.map_append, endsInside_append,
          endsInside_append, List.map_singleton, List.map_singleton, endsInside_singleton,
          endsInside_singleton, staysInside_append_blanks _ _ hblank]

theorem piecesEndInside_trimEnd (inside : Bool) (s : String) :
    piecesEndInside inside (trimEnd s).toList = piecesEndInside inside s.toList := by
  have hblanks : ∀ b ∈ s.toList.rtakeWhile isBlank, isBlank b :=
    fun b => List.mem_rtakeWhile_imp
  rw [toList_trimEnd, ← piecesEndInside_append_blanks _ _ hblanks,
    List.rdropWhile_append_rtakeWhile]

/-- Carriage returns make no difference. -/
theorem staysInside_dropCarriageReturn (inside : Bool) (p : List Char) :
    staysInside inside (.ofList (dropCarriageReturn p)) = staysInside inside (.ofList p) := by
  unfold dropCarriageReturn
  split
  · next hlast =>
      obtain ⟨init, rfl⟩ := List.getLast?_eq_some_iff.1 hlast
      rw [List.dropLast_concat]
      exact (staysInside_append_blanks inside init (List.forall_mem_singleton.2 (by decide))).symm
  · rfl

/-- The lines of a text end inside just if its pieces do. -/
theorem endsInside_lines (inside : Bool) (s : String) :
    endsInside inside (lines s) = piecesEndInside inside s.toList := by
  have hdrop (ps : List (List Char)) : endsInside inside
      ((ps.map dropCarriageReturn).map .ofList) = endsInside inside (ps.map .ofList) := by
    induction ps using List.reverseRecOn with
    | nil => rfl
    | append_singleton ps p ih =>
        simp only [List.map_append, List.map_singleton, endsInside_append, endsInside_singleton,
          staysInside_dropCarriageReturn, ih]
  unfold piecesEndInside lines
  rcases List.eq_nil_or_concat' (pieces s.toList) with hnil | ⟨init, last, heq⟩
  · exact absurd hnil (pieces_ne_nil _)
  · rw [heq, linesOfPieces_concat, List.map_append, List.map_append, endsInside_append,
      endsInside_append, hdrop]
    cases last with
    | nil => exact (staysInside_empty _).symm
    | cons c cs => rfl

/-! ## What a parsed text consists of -/

/-- The section was opened by its keyword. -/
def IsOpened (s : Section) : Prop :=
  SectionKind.ofKeyword? s.keyword = some s.kind

/-- The text of an auxiliary module: wherever it stands, what follows it is inside. -/
structure IsModuleText (text : String) : Prop where
  endsSolid : EndsSolid text.toList
  endsInside : ∀ inside, piecesEndInside inside text.toList = true

/-- The lines of an auxiliary module. -/
structure AreModuleLines (ls : List String) : Prop where
  not_mem : ∀ l ∈ ls, '\n' ∉ l.toList
  endsInside : ∀ inside, Fragment.endsInside inside ls = true

/-- The sections were opened by their keywords, and the modules are auxiliary ones. -/
structure Sound (f : Fragment) : Prop where
  sections : ∀ s ∈ f.sections, IsOpened s
  modules : ∀ e ∈ f.modules, IsModuleText e.2

/-- The current part may be added to sound parts. -/
def Current.Sound : Current → Prop
  | .outside => True
  | .inSection s => IsOpened s
  | .inModule _ ls => AreModuleLines ls

theorem AreModuleLines.ne_nil {ls : List String} (h : AreModuleLines ls) : ls ≠ [] := by
  rintro rfl
  have hfalse := h.endsInside false
  simp [Fragment.endsInside] at hfalse

theorem AreModuleLines.isModuleText {ls : List String} (h : AreModuleLines ls) :
    IsModuleText (trimEnd (unlines ls)) := by
  have hinside (inside : Bool) :
      piecesEndInside inside (trimEnd (unlines ls)).toList = true := by
    rw [piecesEndInside_trimEnd, piecesEndInside, pieces_unlines h.ne_nil h.not_mem, List.map_map]
    have hid : (String.ofList ∘ String.toList) = id := by
      funext l
      exact String.ofList_toList
    rw [hid, List.map_id]
    exact h.endsInside inside
  refine ⟨?_, hinside⟩
  rw [toList_trimEnd]
  refine endsSolid_rdropWhile fun hnil => ?_
  have hfalse := hinside false
  rw [toList_trimEnd, hnil, piecesEndInside, pieces, List.map_singleton, endsInside_singleton,
    String.ofList_nil, staysInside_empty] at hfalse
  simp at hfalse

/-- A module goes on until the next header. -/
theorem AreModuleLines.concat {ls : List String} (h : AreModuleLines ls) {line : String}
    (hkind : ∀ name, lineKind line ≠ .header name) (hline : '\n' ∉ line.toList) :
    AreModuleLines (ls ++ [line]) := by
  refine ⟨?_, fun inside => ?_⟩
  · exact List.forall_mem_append.2 ⟨h.not_mem, List.forall_mem_singleton.2 hline⟩
  · rw [endsInside_append, h.endsInside, endsInside_singleton, staysInside_of_ne_header hkind]

/-- A module begins with its header. -/
theorem sound_ofHeader {line name : String} (h : lineKind line = .header name)
    (hline : '\n' ∉ line.toList) :
    (if name = mainModule then Current.outside else .inModule name [line]).Sound := by
  by_cases hname : name = mainModule
  · rw [if_pos hname]
    trivial
  · rw [if_neg hname]
    refine ⟨by simpa using hline, fun inside => ?_⟩
    rw [endsInside_singleton, staysInside, h]
    simpa using hname

/-- Closing the current part leaves the parts sound. -/
theorem closed_sound {p : Progress} (hdone : p.done.Sound) (hcurrent : p.current.Sound) :
    p.closed.Sound := by
  unfold Progress.closed
  cases hp : p.current with
  | outside => exact hdone
  | inSection s =>
      rw [hp] at hcurrent
      refine ⟨?_, hdone.modules⟩
      exact List.forall_mem_append.2 ⟨hdone.sections, List.forall_mem_singleton.2 hcurrent⟩
  | inModule name ls =>
      rw [hp] at hcurrent
      have hmodule := AreModuleLines.isModuleText hcurrent
      refine ⟨hdone.sections, ?_⟩
      exact List.forall_mem_append.2 ⟨hdone.modules, List.forall_mem_singleton.2 hmodule⟩

/-- A keyword that opens a section tells its kind. -/
theorem isOpened_of_lineKind {line keyword rest : String} {kind : SectionKind}
    (h : lineKind line = .opening kind keyword rest) : SectionKind.ofKeyword? keyword = some kind := by
  unfold lineKind at h
  dsimp only at h
  split at h
  · simp at h
  · split at h
    · next kind' hkind =>
        obtain ⟨rfl, rfl, -⟩ := LineKind.opening.inj h
        exact hkind
    · simp at h

theorem take_sound {p : Progress} (hdone : p.done.Sound) (hcurrent : p.current.Sound)
    {line : String} (hline : '\n' ∉ line.toList) :
    (p.take line).done.Sound ∧ (p.take line).current.Sound := by
  have hclosed := closed_sound hdone hcurrent
  cases hinside : p.current.isInside with
  | true =>
      obtain ⟨name, ls, hp⟩ := exists_inModule hinside
      have hls : AreModuleLines ls := by
        rw [hp] at hcurrent
        exact hcurrent
      cases hkind : lineKind line with
      | header name =>
          rw [take_header hkind]
          exact ⟨hclosed, sound_ofHeader hkind hline⟩
      | opening kind keyword rest =>
          rw [take_inModule (by simp [hkind]) hp]
          exact ⟨hdone, hls.concat (by simp [hkind]) hline⟩
      | plain =>
          rw [take_inModule (by simp [hkind]) hp]
          exact ⟨hdone, hls.concat (by simp [hkind]) hline⟩
  | false =>
      cases hkind : lineKind line with
      | header name =>
          rw [take_header hkind]
          exact ⟨hclosed, sound_ofHeader hkind hline⟩
      | opening kind keyword rest =>
          rw [take_opening hkind hinside]
          exact ⟨hclosed, isOpened_of_lineKind hkind⟩
      | plain =>
          unfold Progress.take
          rw [hkind]
          cases hp : p.current with
          | outside => exact ⟨hdone, trivial⟩
          | inSection s =>
              rw [hp] at hcurrent
              exact ⟨hdone, hcurrent⟩
          | inModule name ls => simp [hp, Current.isInside] at hinside

/-- Every model text consists of sections opened by keywords and of auxiliary modules. -/
theorem parse_sound (text : String) : (parse text).Sound := by
  have hlines (ls : List String) (hls : ∀ l ∈ ls, '\n' ∉ l.toList) :
      (ofLines ls).done.Sound ∧ (ofLines ls).current.Sound := by
    induction ls using List.reverseRecOn with
    | nil => exact ⟨⟨by simp [ofLines, Progress.start], by simp [ofLines, Progress.start]⟩, trivial⟩
    | append_singleton ls l ih =>
        obtain ⟨hdone, hcurrent⟩ := ih fun l' hl' => hls l' (List.mem_append_left _ hl')
        rw [ofLines_concat]
        exact take_sound hdone hcurrent (hls l (by simp))
  obtain ⟨hdone, hcurrent⟩ := hlines (lines text) fun l => not_mem_of_mem_lines
  exact closed_sound hdone hcurrent

/-! ## One more section -/

/-- A line that opens a section, behind a text that ends outside of auxiliary modules, is a section
of its own. -/
theorem parse_of_outside {text more line keyword rest : String} {kind : SectionKind}
    (hmore : lines more = lines text ++ [line]) (hkind : lineKind line = .opening kind keyword rest)
    (hrest : rest ≠ "") (houtside : endsInside false (lines text) = false) :
    parse more = { parse text with
      sections := (parse text).sections ++ [⟨kind, keyword, [rest]⟩] } := by
  rw [← isInside_ofLines] at houtside
  unfold parse
  rw [hmore, ofLines_concat, take_opening hkind houtside, if_neg hrest]
  rfl

/-- Behind a text that ends inside an auxiliary module, the line belongs to that module. -/
theorem parse_of_inside {text more line last keyword rest : String} {init : List String}
    {kind : SectionKind} (hmore : lines more = lines text ++ [line])
    (hkind : lineKind line = .opening kind keyword rest) (hsolid : EndsSolid line.toList)
    (htext : lines text = init ++ [last]) (hlast : EndsSolid last.toList)
    (hinside : endsInside false (lines text) = true) :
    ∃ ms name body, (parse text).modules = ms ++ [(name, body)] ∧
      parse more = { parse text with modules := ms ++ [(name, body ++ "\n" ++ line)] } := by
  rw [← isInside_ofLines] at hinside
  obtain ⟨name, ls, hp⟩ := exists_inModule hinside
  obtain ⟨front, rfl⟩ : ∃ front, ls = front ++ [last] := by
    rw [htext, ofLines_concat] at hp
    exact exists_concat_of_take hp
  have hbody : trimEnd (unlines (front ++ [last])) = unlines (front ++ [last]) :=
    (endsSolid_unlines_concat front hlast).trimEnd_eq
  have hbody' : trimEnd (unlines (front ++ [last] ++ [line])) =
      unlines (front ++ [last]) ++ "\n" ++ line := by
    rw [(endsSolid_unlines_concat _ hsolid).trimEnd_eq, unlines_concat (by simp)]
  refine ⟨(ofLines (lines text)).done.modules, name, unlines (front ++ [last]), ?_, ?_⟩
  · rw [parse, closed_inModule hp, hbody]
  · have htaken : (ofLines (lines text)).take line = _ := take_inModule (by simp [hkind]) hp
    rw [parse, parse, hmore, ofLines_concat, closed_inModule hp, htaken,
      closed_inModule rfl, hbody']

end Punctual.Fragment
