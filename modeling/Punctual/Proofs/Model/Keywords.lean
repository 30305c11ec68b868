import Punctual.Proofs.Model.Declaration
import Punctual.Proofs.Model.Parsing
import Punctual.Proofs.Text.Cuts

/-!
# Keywords inside lines

A keyword opens a section or a module only where it is the first word of a line. In model texts
whose keywords stand nowhere else (`keywordsLead`), the bodies of sections hold no keyword outside of
comments (`isKeywordFree_of_mem_body`). No part that is cut out of such a body can open anything
when it comes to stand on a line of its own (`lineKind_of_isKeywordFree`).
-/

namespace Punctual

open Text Fragment

/-! ## Comments -/

section Comments

variable {c : Char} {cs ds bs : List Char}

theorem beforeComment_cons_cons (c d : Char) (cs : List Char) :
    beforeComment (c :: d :: cs) =
      if c = '-' ∧ d = '-' then [] else c :: beforeComment (d :: cs) := by
  rw [beforeComment]

theorem beforeComment_cons (hc : c ≠ '-') (cs : List Char) :
    beforeComment (c :: cs) = c :: beforeComment cs := by
  cases cs with
  | nil => rfl
  | cons d cs => rw [beforeComment_cons_cons, if_neg fun h => hc h.1]

theorem beforeComment_append (hcs : '-' ∉ cs) (ds : List Char) :
    beforeComment (cs ++ ds) = cs ++ beforeComment ds := by
  induction cs with
  | nil => rfl
  | cons c cs ih =>
      obtain ⟨hc, hrest⟩ := not_or.1 (List.mem_cons.not.1 hcs)
      rw [List.cons_append, beforeComment_cons (Ne.symm hc), ih hrest, List.cons_append]

theorem beforeComment_isPrefix (cs : List Char) : beforeComment cs <+: cs := by
  induction cs with
  | nil => exact List.prefix_rfl
  | cons c cs ih =>
      cases cs with
      | nil => exact List.prefix_rfl
      | cons d cs =>
          rw [beforeComment_cons_cons]
          split
          · exact List.nil_prefix
          · exact List.cons_prefix_cons.2 ⟨rfl, ih⟩

theorem dash_not_mem_of_blanks (h : ∀ b ∈ bs, isBlank b) : '-' ∉ bs :=
  fun hmem => absurd (h '-' hmem) (by decide)

theorem beforeComment_blanks (h : ∀ b ∈ bs, isBlank b) : beforeComment bs = bs := by
  have hall := beforeComment_append (dash_not_mem_of_blanks h) []
  rwa [List.append_nil, beforeComment, List.append_nil] at hall

/-- Blanks behind a line stay behind it, or stand in its comment. -/
theorem beforeComment_append_blanks (cs : List Char) (h : ∀ b ∈ bs, isBlank b) :
    ∃ bs', (∀ b ∈ bs', isBlank b) ∧ beforeComment (cs ++ bs) = beforeComment cs ++ bs' := by
  induction cs with
  | nil => exact ⟨bs, h, beforeComment_blanks h⟩
  | cons c cs ih =>
      obtain ⟨bs', hbs', heq⟩ := ih
      rcases cs with - | ⟨d, cs⟩
      · cases bs with
        | nil => exact ⟨[], by simp, rfl⟩
        | cons b bs =>
            have hb : b ≠ '-' := fun heq => dash_not_mem_of_blanks h (by simp [heq])
            refine ⟨b :: bs, h, ?_⟩
            rw [List.cons_append, List.nil_append, beforeComment_cons_cons,
              if_neg fun hdash => hb hdash.2, beforeComment_blanks h]
            rfl
      · rw [List.cons_append, List.cons_append, beforeComment_cons_cons, beforeComment_cons_cons]
        split
        · exact ⟨[], by simp, rfl⟩
        · exact ⟨bs', hbs', congrArg _ heq⟩

/-- No two dashes stand side by side. -/
def HasNoComment (cs : List Char) : Prop :=
  cs.IsChain fun c d => ¬ (c = '-' ∧ d = '-')

theorem beforeComment_of_hasNoComment (h : HasNoComment cs) : beforeComment cs = cs := by
  induction cs with
  | nil => rfl
  | cons c cs ih =>
      rcases cs with - | ⟨d, cs⟩
      · rfl
      · obtain ⟨hdashes, hrest⟩ := List.isChain_cons_cons.1 h
        rw [beforeComment_cons_cons, if_neg hdashes, ih hrest]

theorem hasNoComment_beforeComment (cs : List Char) : HasNoComment (beforeComment cs) := by
  induction cs with
  | nil => exact List.isChain_nil
  | cons c cs ih =>
      rcases cs with - | ⟨d, cs⟩
      · exact List.isChain_singleton c
      · rw [beforeComment_cons_cons]
        split
        · exact List.isChain_nil
        · next hdashes =>
            refine List.isChain_cons.2 ⟨fun e he => ?_, ih⟩
            -- what stands in front of a comment begins as the line does
            obtain ⟨es, hes⟩ := List.head?_eq_some_iff.1 he
            have hprefix := beforeComment_isPrefix (d :: cs)
            rw [hes] at hprefix
            rwa [(List.cons_prefix_cons.1 hprefix).1]

/-- Only the blanks at the ends of a line can be lost if it is trimmed before its comment is
dropped. -/
theorem exists_blanks_beforeComment (s : String) : ∃ front rest, (∀ b ∈ front, isBlank b) ∧
    (∀ b ∈ rest, isBlank b) ∧
      beforeComment s.toList = front ++ (beforeComment (trim s).toList ++ rest) := by
  obtain ⟨front, rest, hfront, hrest, heq⟩ := exists_blanks_trim s
  obtain ⟨rest', hrest', heq'⟩ := beforeComment_append_blanks (trim s).toList hrest
  refine ⟨front, rest', hfront, hrest', ?_⟩
  rw [heq, beforeComment_append (dash_not_mem_of_blanks hfront), heq']

theorem trim_stripComment_trim (s : String) :
    trim (stripComment (trim s)) = trim (stripComment s) := by
  obtain ⟨front, rest, hfront, hrest, heq⟩ := exists_blanks_beforeComment s
  rw [stripComment, stripComment, heq, trim_blanks_append hfront, trim_append_blanks _ hrest]

end Comments

/-! ## Identifiers -/

/-- A character of an identifier: one of a variable's name, or a dash. -/
def isIdentifierChar (c : Char) : Bool :=
  isVariableChar c || c == '-'

/-- The character cannot stand in an identifier. -/
def isSeparator (c : Char) : Bool :=
  !isIdentifierChar c

/-- The identifiers in some characters; between adjacent separators there is an empty one. -/
def identifiers (cs : List Char) : List (List Char) :=
  cs.splitOnP isSeparator

/-- The word opens a section or a module. -/
def isKeyword (word : String) : Bool :=
  word = moduleKeyword || (SectionKind.ofKeyword? word).isSome

/-- None of the identifiers is a keyword. -/
def isKeywordFree (cs : List Char) : Bool :=
  (identifiers cs).all fun word => !isKeyword (.ofList word)

/-- What stands in a line behind the keyword it begins with, or the whole line. -/
def behindKeyword (line : String) : List Char :=
  let cs := (trimStart line).toList
  let word := firstWord cs
  if isKeyword (.ofList word) then cs.drop word.length else cs

/-- A keyword stands in the line as its first word or not at all, its comment aside. -/
def keywordsLead (line : String) : Bool :=
  isKeywordFree (beforeComment (behindKeyword line))

section KeywordFree

variable {sep : Char} {xs ys cs : List Char}

theorem isSeparator_of_isBlank {c : Char} (h : isBlank c) : isSeparator c := by
  by_contra hsep
  have hchar : isIdentifierChar c := by simpa [isSeparator] using hsep
  rcases Bool.or_eq_true_iff.1 hchar with hname | hdash
  · rw [isBlank_of_isVariableChar hname] at h
    simp at h
  · obtain rfl := beq_iff_eq.1 hdash
    exact absurd h (by decide)

/-- Keywords are looked for on both sides of a separator. -/
theorem isKeywordFree_append_cons (hsep : isSeparator sep) (xs ys : List Char) :
    isKeywordFree (xs ++ sep :: ys) = (isKeywordFree xs && isKeywordFree ys) := by
  rw [isKeywordFree, identifiers, List.splitOnP_append_cons _ _ hsep, List.all_append]
  rfl

theorem isKeywordFree_nil : isKeywordFree [] := by
  decide

/-- What is cut out of characters without keywords has none. -/
theorem isKeywordFree_of_isCutOut (h : IsCutOut isSeparator xs cs) (hcs : isKeywordFree cs) :
    isKeywordFree xs := by
  obtain ⟨front, rest, rfl, hfront, hrest⟩ := h
  have hleft : isKeywordFree (front ++ xs) := by
    cases rest with
    | nil => rwa [List.append_nil] at hcs
    | cons sep rest =>
        rw [isKeywordFree_append_cons (hrest sep (by simp))] at hcs
        exact (Bool.and_eq_true_iff.1 hcs).1
  rcases List.eq_nil_or_concat' front with rfl | ⟨init, sep, rfl⟩
  · exact hleft
  · rw [List.append_assoc, List.singleton_append,
      isKeywordFree_append_cons (hfront sep (by simp))] at hleft
    exact (Bool.and_eq_true_iff.1 hleft).2

/-- Blanks at the ends make no difference. -/
theorem isKeywordFree_blanks_append {bs : List Char} (h : ∀ b ∈ bs, isBlank b) (cs : List Char) :
    isKeywordFree (bs ++ cs) = isKeywordFree cs := by
  induction bs with
  | nil => rfl
  | cons b bs ih =>
      have hb := isSeparator_of_isBlank (h b List.mem_cons_self)
      have hmoved := isKeywordFree_append_cons hb [] (bs ++ cs)
      rw [isKeywordFree_nil, Bool.true_and] at hmoved
      exact hmoved.trans (ih fun b' hb' => h b' (List.mem_cons_of_mem _ hb'))

/-- Blanks in front of a line make no difference. -/
theorem isKeywordFree_beforeComment_trimStart (line : String) :
    isKeywordFree (beforeComment (trimStart line).toList) =
      isKeywordFree (beforeComment line.toList) := by
  have hblanks : ∀ b ∈ line.toList.takeWhile isBlank, isBlank b := fun b => List.mem_takeWhile_imp
  rw [← isKeywordFree_blanks_append hblanks,
    ← beforeComment_append (dash_not_mem_of_blanks hblanks), toList_trimStart,
    List.takeWhile_append_dropWhile]

theorem isKeywordFree_beforeComment_trim {s : String} (h : isKeywordFree (beforeComment s.toList)) :
    isKeywordFree (beforeComment (trim s).toList) := by
  obtain ⟨front, rest, hfront, hrest, heq⟩ := exists_blanks_beforeComment s
  rw [heq, isKeywordFree_blanks_append hfront] at h
  refine isKeywordFree_of_isCutOut (isCutOut_append_right ?_ _) h
  exact fun c hc => isSeparator_of_isBlank (hrest c (List.mem_of_head? hc))

end KeywordFree

/-! ## Plain lines -/

/-- Keywords consist of letters. -/
theorem chars_of_isKeyword {word : String} (h : isKeyword word) :
    ∀ c ∈ word.toList, isVariableChar c ∧ c ≠ '-' := by
  have hall : word.toList.all fun c => isVariableChar c && c != '-' := by
    rcases Bool.or_eq_true_iff.1 h with hmodule | hsection
    · obtain rfl := of_decide_eq_true hmodule
      decide
    · unfold SectionKind.ofKeyword? at hsection
      split at hsection
      all_goals first
        | decide
        | simp at hsection
  intro c hc
  simpa using List.all_eq_true.1 hall c hc

/-- A line that does not begin with a keyword is plain. -/
theorem lineKind_of_not_isKeyword {line : String}
    (h : isKeyword (.ofList (firstWord (trimStart line).toList)) = false) :
    lineKind line = .plain := by
  obtain ⟨hmodule, hsection⟩ := Bool.or_eq_false_iff.1 h
  have hnone := Option.isNone_iff_eq_none.1 (Option.isSome_eq_false_iff.1 hsection)
  unfold lineKind
  simp only [of_decide_eq_false hmodule, if_false, hnone]

/-- A keyword is its only identifier. -/
theorem not_isKeywordFree_of_isKeyword {word : List Char} (h : isKeyword (.ofList word)) :
    isKeywordFree word = false := by
  have hchars := chars_of_isKeyword h
  rw [String.toList_ofList] at hchars
  have hone : identifiers word = [word] := by
    refine List.splitOnP_eq_singleton fun c hc => ?_
    simp [isSeparator, isIdentifierChar, (hchars c hc).1]
  simp [isKeywordFree, hone, h]

/-- The first word ends where the line does, or in front of a character that ends words. -/
theorem exists_firstWord_append (cs : List Char) :
    ∃ rest, cs = firstWord cs ++ rest ∧ ∀ c ∈ rest.head?, endsWord c := by
  refine ⟨cs.dropWhile fun c => !endsWord c, List.takeWhile_append_dropWhile.symm, fun c hc => ?_⟩
  have hstop := List.head?_dropWhile_not (fun c => !endsWord c) cs
  rw [hc] at hstop
  simpa using hstop

theorem isSeparator_of_endsWord {c : Char} (h : endsWord c) : isSeparator c := by
  rcases Bool.or_eq_true_iff.1 h with hblank | hparen
  · exact isSeparator_of_isBlank hblank
  · obtain rfl := beq_iff_eq.1 hparen
    decide

/-- A line without keywords outside of its comment is plain. -/
theorem lineKind_of_isKeywordFree {line : String}
    (h : isKeywordFree (beforeComment line.toList)) : lineKind line = .plain := by
  apply lineKind_of_not_isKeyword
  by_contra hfound
  rw [Bool.not_eq_false] at hfound
  rw [← isKeywordFree_beforeComment_trimStart] at h
  -- the first word is one of the identifiers in front of the comment
  obtain ⟨rest, hline, hrest⟩ := exists_firstWord_append (trimStart line).toList
  generalize firstWord (trimStart line).toList = word at hline hfound
  have hdash : '-' ∉ word := fun hmem =>
    (chars_of_isKeyword hfound '-' (by rwa [String.toList_ofList])).2 rfl
  have hseparated : ∀ c ∈ (beforeComment rest).head?, isSeparator c := by
    intro c hc
    obtain ⟨cs, hcs⟩ := List.head?_eq_some_iff.1 hc
    obtain ⟨more, hmore⟩ := beforeComment_isPrefix rest
    exact isSeparator_of_endsWord (hrest c (by rw [← hmore, hcs]; rfl))
  rw [hline, beforeComment_append hdash] at h
  have hfree := isKeywordFree_of_isCutOut (isCutOut_append_right hseparated word) h
  rw [not_isKeywordFree_of_isKeyword hfound] at hfree
  simp at hfree

/-! ## Bodies of sections -/

namespace Fragment

/-- A section after one more line was there before, or the line opened it, or it is plain and the
last one of the body. -/
theorem mem_sections_take {p : Progress} {line : String} {s : Section}
    (h : s ∈ (p.take line).closed.sections) :
    s ∈ p.closed.sections ∨
      (∃ rest, lineKind line = .opening s.kind s.keyword rest ∧
        s.body = if rest = "" then [] else [rest]) ∨
      lineKind line = .plain ∧ ∃ s' ∈ p.closed.sections, s.body = s'.body ++ [line] := by
  by_cases hheader : ∃ name, lineKind line = .header name
  · obtain ⟨name, hkind⟩ := hheader
    rw [take_header hkind] at h
    left
    by_cases hmain : name = mainModule <;> simpa [Progress.closed, hmain] using h
  · have hother : ∀ name, lineKind line ≠ .header name := by simpa using hheader
    cases hinside : p.current.isInside with
    | true =>
        obtain ⟨name, ls, hp⟩ := exists_inModule hinside
        rw [take_inModule hother hp, closed_inModule rfl] at h
        rw [closed_inModule hp]
        exact .inl h
    | false =>
        cases hkind : lineKind line with
        | header name => exact absurd hkind (hother name)
        | opening kind keyword rest =>
            rw [take_opening hkind hinside] at h
            rcases List.mem_append.1 h with hbefore | hnew
            · exact .inl hbefore
            · obtain rfl := List.mem_singleton.1 hnew
              exact .inr (.inl ⟨rest, rfl, rfl⟩)
        | plain =>
            unfold Progress.take at h
            rw [hkind] at h
            unfold Progress.closed at h ⊢
            cases hp : p.current with
            | outside =>
                rw [hp] at h
                exact .inl h
            | inSection s' =>
                rw [hp] at h
                rcases List.mem_append.1 h with hbefore | hnew
                · exact .inl (List.mem_append_left _ hbefore)
                · obtain rfl := List.mem_singleton.1 hnew
                  exact .inr (.inr ⟨rfl, s', by simp, rfl⟩)
            | inModule name ls => simp [hp, Current.isInside] at hinside

/-- What holds of every line that can stand in a body holds of the bodies. -/
theorem forall_mem_body {P : String → Prop} {ls : List String}
    (hopening : ∀ l ∈ ls, ∀ kind keyword rest, lineKind l = .opening kind keyword rest → P rest)
    (hplain : ∀ l ∈ ls, lineKind l = .plain → P l) :
    ∀ s ∈ (ofLines ls).closed.sections, ∀ l ∈ s.body, P l := by
  induction ls using List.reverseRecOn with
  | nil => simp [ofLines, Progress.start, Progress.closed]
  | append_singleton ls line ih =>
      have hbefore := ih (fun l hl => hopening l (List.mem_append_left _ hl))
        fun l hl => hplain l (List.mem_append_left _ hl)
      have hline : line ∈ ls ++ [line] := by simp
      intro s hs l hl
      rw [ofLines_concat] at hs
      rcases mem_sections_take hs with hs | ⟨rest, hkind, hbody⟩ | ⟨hkind, s', hs', hbody⟩
      · exact hbefore s hs l hl
      · rw [hbody] at hl
        split at hl
        · simp at hl
        · obtain rfl := List.mem_singleton.1 hl
          exact hopening line hline _ _ _ hkind
      · rw [hbody] at hl
        rcases List.mem_append.1 hl with hold | hnew
        · exact hbefore s' hs' l hold
        · obtain rfl := List.mem_singleton.1 hnew
          exact hplain l hline hkind

/-- The word and the rest of a line that opens a section. -/
theorem opening_spec {line keyword rest : String} {kind : SectionKind}
    (h : lineKind line = .opening kind keyword rest) :
    isKeyword (.ofList (firstWord (trimStart line).toList)) ∧
      rest = trim (.ofList ((trimStart line).toList.drop
        (firstWord (trimStart line).toList).length)) := by
  unfold lineKind at h
  dsimp only at h
  split at h
  · simp at h
  · split at h
    · next kind' hkind =>
        obtain ⟨-, -, rfl⟩ := LineKind.opening.inj h
        rw [String.toList_ofList]
        exact ⟨Bool.or_eq_true_iff.2 (.inr (Option.isSome_iff_exists.2 ⟨_, hkind⟩)), rfl⟩
    · simp at h

/-- A plain line does not begin with a keyword. -/
theorem not_isKeyword_of_plain {line : String} (h : lineKind line = .plain) :
    isKeyword (.ofList (firstWord (trimStart line).toList)) = false := by
  unfold lineKind at h
  dsimp only at h
  split at h
  · simp at h
  · next hmodule =>
      split at h
      · simp at h
      · next hnone =>
          rw [isKeyword, hnone, decide_eq_false hmodule]
          rfl

variable {source : String} {s : Section} {l : String}

/-- If keywords stand at the beginning of lines only, bodies have none outside of comments. -/
theorem isKeywordFree_of_mem_body (h : (lines source).all keywordsLead)
    (hs : s ∈ (parse source).sections) (hl : l ∈ s.body) :
    isKeywordFree (beforeComment l.toList) := by
  rw [List.all_eq_true] at h
  refine forall_mem_body (P := fun l => isKeywordFree (beforeComment l.toList)) ?_ ?_ s hs l hl
  · intro line hline kind keyword rest hkind
    obtain ⟨hkeyword, rfl⟩ := opening_spec hkind
    have hlead := h line hline
    rw [keywordsLead, behindKeyword, if_pos hkeyword] at hlead
    apply isKeywordFree_beforeComment_trim
    rwa [String.toList_ofList]
  · intro line hline hkind
    have hlead := h line hline
    rw [keywordsLead, behindKeyword,
      if_neg (Bool.eq_false_iff.1 (not_isKeyword_of_plain hkind))] at hlead
    rwa [← isKeywordFree_beforeComment_trimStart]

/-- Bodies consist of lines. -/
theorem not_mem_of_mem_body (hs : s ∈ (parse source).sections) (hl : l ∈ s.body) :
    '\n' ∉ l.toList := by
  refine forall_mem_body (P := fun l => '\n' ∉ l.toList) ?_ ?_ s hs l hl
  · intro line hline kind keyword rest hkind hmem
    obtain ⟨-, rfl⟩ := opening_spec hkind
    rw [toList_trim, String.toList_ofList] at hmem
    have hmem' := (List.dropWhile_sublist _).subset ((List.rdropWhile_prefix _ _).subset hmem)
    have hmem'' := List.mem_of_mem_drop hmem'
    rw [toList_trimStart] at hmem''
    exact not_mem_of_mem_lines hline ((List.dropWhile_sublist _).subset hmem'')
  · exact fun line hline _ => not_mem_of_mem_lines hline

end Fragment

end Punctual
