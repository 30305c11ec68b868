import Punctual.Proofs.Model.Reparsing

/-!
# The blocks of a model text

The lines of a model text form blocks: headers of the main module, auxiliary modules, sections of
the main module, and stray lines outside of them (`Block`). What a line can be is told by the word
it begins with (`BeginsWith`), and which block it belongs to by the block before it (`Follows`). A
text is cut into such blocks in one way only (`isCut_iff`), and its parts and the warnings about it
are those of its blocks (`parse_accounts`): every line is used once and none is lost.
-/

namespace Punctual

open Text

namespace Fragment

/-! ## The words that lines begin with -/

/-- Behind blanks, the line begins with a word. What stands behind the word, up to blanks at the
ends, is the rest. -/
def BeginsWith (word rest line : String) : Prop :=
  ∃ blanks tail, line.toList = blanks ++ (word.toList ++ tail) ∧ (∀ b ∈ blanks, isBlank b) ∧
    (∀ c ∈ word.toList, endsWord c = false) ∧ (∀ c ∈ tail.head?, endsWord c) ∧
      rest = trim (.ofList tail)

/-- The line is the header of a module. -/
def IsHeader (name line : String) : Prop :=
  ∃ rest, BeginsWith moduleKeyword rest line ∧ name = .ofList (firstWord rest.toList)

/-- The line begins with a keyword that opens a section. -/
def OpensSection (kind : SectionKind) (keyword rest line : String) : Prop :=
  BeginsWith keyword rest line ∧ SectionKind.ofKeyword? keyword = some kind

/-- The line begins with no keyword. -/
def IsPlain (line : String) : Prop :=
  ∀ word rest, BeginsWith word rest line → isKeyword word = false

section FirstWord

variable {word rest line name keyword : String} {kind : SectionKind}

theorem isBlank_eq_false_of_not_endsWord {c : Char} (h : endsWord c = false) :
    isBlank c = false :=
  (Bool.or_eq_false_iff.1 h).1

theorem firstWord_append_of_ends {cs tail : List Char} (hcs : ∀ c ∈ cs, endsWord c = false)
    (htail : ∀ c ∈ tail.head?, endsWord c) : firstWord (cs ++ tail) = cs := by
  have hstop : tail.takeWhile (fun c => !endsWord c) = [] := by
    cases tail with
    | nil => rfl
    | cons c tail => simp [htail c rfl]
  rw [firstWord, List.takeWhile_append_of_pos (by simpa using hcs), hstop, List.append_nil]

/-- The first word of a line and what stands behind it. -/
theorem beginsWith_iff (hword : word ≠ "") :
    BeginsWith word rest line ↔ String.ofList (firstWord (trimStart line).toList) = word ∧
      rest = trim (.ofList ((trimStart line).toList.drop word.toList.length)) := by
  constructor
  · rintro ⟨blanks, tail, hline, hblanks, hchars, htail, rfl⟩
    have hstart : (trimStart line).toList = word.toList ++ tail := by
      rw [toList_trimStart, hline, List.dropWhile_append_of_pos hblanks]
      cases hcs : word.toList with
      | nil => exact absurd (String.toList_eq_nil_iff.1 hcs) hword
      | cons c cs =>
          have hc := isBlank_eq_false_of_not_endsWord (hchars c (by simp [hcs]))
          rw [List.cons_append, List.dropWhile_cons_of_neg (by simp [hc])]
    rw [hstart, firstWord_append_of_ends hchars htail, List.drop_left]
    exact ⟨String.ofList_toList, rfl⟩
  · rintro ⟨rfl, rfl⟩
    obtain ⟨tail, hstart, htail⟩ := exists_firstWord_append (trimStart line).toList
    refine ⟨line.toList.takeWhile isBlank, tail, ?_, ?_, ?_, htail, ?_⟩
    · rw [String.toList_ofList, ← hstart, toList_trimStart, List.takeWhile_append_dropWhile]
    · exact fun b hb => List.mem_takeWhile_imp hb
    · intro c hc
      rw [String.toList_ofList] at hc
      simpa using List.mem_takeWhile_imp hc
    · have hdrop := congrArg (List.drop (firstWord (trimStart line).toList).length) hstart
      rw [List.drop_left] at hdrop
      rw [String.toList_ofList, hdrop]

theorem ne_empty_of_ofKeyword? (h : SectionKind.ofKeyword? keyword = some kind) :
    keyword ≠ "" := by
  rintro rfl
  simp [SectionKind.ofKeyword?] at h

theorem lineKind_eq_header_iff : lineKind line = .header name ↔ IsHeader name line := by
  have hmodule : moduleKeyword ≠ "" := by decide
  unfold IsHeader lineKind
  simp only [beginsWith_iff hmodule]
  constructor
  · intro h
    split at h
    · next hword =>
        obtain rfl := LineKind.header.inj h
        refine ⟨_, ⟨hword, rfl⟩, ?_⟩
        rw [hword]
    · split at h <;> simp at h
  · rintro ⟨rest, ⟨hword, rfl⟩, rfl⟩
    rw [if_pos hword, hword]

theorem not_isHeader_of_lineKind {found : LineKind} (h : lineKind line = found)
    (hother : ∀ name, found ≠ .header name) (name : String) : ¬ IsHeader name line := by
  intro hheader
  exact hother name (h.symm.trans (lineKind_eq_header_iff.2 hheader))

theorem lineKind_eq_opening_iff :
    lineKind line = .opening kind keyword rest ↔ OpensSection kind keyword rest line := by
  unfold OpensSection lineKind
  constructor
  · intro h
    dsimp only at h
    split at h
    · simp at h
    · split at h
      · next kind' hkind =>
          obtain ⟨rfl, rfl, rfl⟩ := LineKind.opening.inj h
          exact ⟨(beginsWith_iff (ne_empty_of_ofKeyword? hkind)).2 ⟨rfl, rfl⟩, hkind⟩
      · simp at h
  · rintro ⟨hbegins, hkind⟩
    obtain ⟨hword, rfl⟩ := (beginsWith_iff (ne_empty_of_ofKeyword? hkind)).1 hbegins
    have hmodule : keyword ≠ moduleKeyword := by
      rintro rfl
      simp [moduleKeyword, SectionKind.ofKeyword?] at hkind
    dsimp only
    rw [hword, if_neg hmodule, hkind]

theorem lineKind_eq_plain_iff : lineKind line = .plain ↔ IsPlain line := by
  constructor
  · intro h word rest hbegins
    by_cases hword : word = ""
    · rw [hword]
      decide
    · obtain ⟨rfl, -⟩ := (beginsWith_iff hword).1 hbegins
      exact not_isKeyword_of_plain h
  · intro h
    apply lineKind_of_not_isKeyword
    by_cases hword : String.ofList (firstWord (trimStart line).toList) = ""
    · rw [hword]
      decide
    · exact h _ _ ((beginsWith_iff hword).2 ⟨rfl, rfl⟩)

end FirstWord

/-! ## Blocks -/

/-- A part of a model text. -/
inductive Block
  /-- The header of the main module. -/
  | mainHeader (line : String)
  /-- A module other than `main`, with the lines behind its header. -/
  | auxiliary (name header : String) (behind : List String)
  /-- A section of the main module: the line with its keyword, where some text may stand behind the
  keyword, and the other lines of its body. -/
  | opened (kind : SectionKind) (keyword rest line : String) (behind : List String)
  /-- A line outside of all modules and sections. -/
  | stray (line : String)
  deriving DecidableEq, Repr

namespace Block

/-- The lines of a block. -/
def lines : Block → List String
  | mainHeader line => [line]
  | auxiliary _ header behind => header :: behind
  | opened _ _ _ line behind => line :: behind
  | stray line => [line]

/-- The lines can form the block. An auxiliary module goes on up to the next header, whatever the
lines begin with, and a section up to the next header or keyword. -/
def IsWellFormed : Block → Prop
  | mainHeader line => IsHeader mainModule line
  | auxiliary name header behind =>
    IsHeader name header ∧ name ≠ mainModule ∧ ∀ l ∈ behind, ∀ next, ¬ IsHeader next l
  | opened kind keyword rest line behind =>
    OpensSection kind keyword rest line ∧ ∀ l ∈ behind, IsPlain l
  | stray line => IsPlain line

/-- The section of a block. -/
def section? : Block → Option Section
  | opened kind keyword rest _ behind =>
    some ⟨kind, keyword, (if rest = "" then [] else [rest]) ++ behind⟩
  | _ => none

/-- The auxiliary module of a block, as one text. -/
def module? : Block → Option (String × String)
  | auxiliary name header behind => some (name, trimEnd (unlines (header :: behind)))
  | _ => none

/-- The warnings about a block. -/
def warnings : Block → List String
  | stray line => outsideWarning line
  | _ => []

/-- The second block can stand behind the first one: behind an auxiliary module only a header, and
behind a section no stray line. -/
def Follows : Block → Block → Prop
  | auxiliary .., opened .. => False
  | auxiliary .., stray _ => False
  | opened .., stray _ => False
  | _, _ => True

end Block

/-- The lines are cut into blocks, each line being in one of them. -/
structure IsCut (ls : List String) (bs : List Block) : Prop where
  lines : bs.flatMap Block.lines = ls
  wellFormed : ∀ b ∈ bs, b.IsWellFormed
  follows : bs.IsChain Block.Follows

/-! ## What is made of blocks -/

section Run

variable {p : Progress} {b : Block} {bs : List Block} {ls : List String}

/-- What a text is inside of at the end of a block. -/
def Block.current : Block → Current
  | mainHeader _ => .outside
  | auxiliary name header behind => .inModule name (header :: behind)
  | opened kind keyword rest _ behind =>
    .inSection ⟨kind, keyword, (if rest = "" then [] else [rest]) ++ behind⟩
  | stray _ => .outside

/-- The block can come next. -/
def Block.Fits (c : Current) : Block → Prop
  | mainHeader _ => True
  | auxiliary .. => True
  | opened .. => c.isInside = false
  | stray _ => c = .outside

theorem Block.fits_current {b b' : Block} (h : b.Follows b') : b'.Fits b.current := by
  cases b <;> cases b' <;> trivial

/-- A block leaves its part behind, and its warnings. -/
structure Takes (p : Progress) (b : Block) (p' : Progress) : Prop where
  current : p'.current = b.current
  sections : p'.closed.sections = p.closed.sections ++ b.section?.toList
  modules : p'.closed.modules = p.closed.modules ++ b.module?.toList
  warnings : p'.warnings = p.warnings ++ b.warnings

theorem takes_of_block (hb : b.IsWellFormed) (hfits : b.Fits p.current) :
    Takes p b (b.lines.foldl Progress.take p) := by
  cases b with
  | mainHeader line =>
      have hkind := lineKind_eq_header_iff.2 hb
      rw [Block.lines, List.foldl_cons, List.foldl_nil, take_header hkind, if_pos rfl]
      constructor <;> simp [Progress.closed, Block.current, Block.section?, Block.module?,
        Block.warnings]
  | auxiliary name header behind =>
      obtain ⟨hheader, hmain, hbehind⟩ := hb
      have hkind := lineKind_eq_header_iff.2 hheader
      have hother : ∀ l ∈ behind, ∀ next, lineKind l ≠ .header next := by
        intro l hl next hnext
        exact hbehind l hl next (lineKind_eq_header_iff.1 hnext)
      rw [Block.lines, List.foldl_cons, take_header hkind, if_neg hmain,
        foldl_take_inModule hother rfl]
      constructor <;> simp [Progress.closed, Block.current, Block.section?, Block.module?,
        Block.warnings]
  | opened kind keyword rest line behind =>
      obtain ⟨hopens, hbehind⟩ := hb
      have hkind := lineKind_eq_opening_iff.2 hopens
      have hplain : ∀ l ∈ behind, lineKind l = .plain := by
        intro l hl
        exact lineKind_eq_plain_iff.2 (hbehind l hl)
      rw [Block.lines, List.foldl_cons, take_opening hkind hfits, foldl_take_plain hplain rfl]
      constructor <;> simp [Progress.closed, Block.current, Block.section?, Block.module?,
        Block.warnings]
  | stray line =>
      have hkind := lineKind_eq_plain_iff.2 hb
      have hcurrent : p.current = .outside := hfits
      have htaken : p.take line = { p with warnings := p.warnings ++ outsideWarning line } := by
        rw [Progress.take, hkind, hcurrent]
      rw [Block.lines, List.foldl_cons, List.foldl_nil, htaken]
      constructor <;> simp [Progress.closed, hcurrent, Block.current, Block.section?,
        Block.module?, Block.warnings]

/-- Blocks leave their parts behind one after the other. -/
theorem closed_foldl_take (hbs : ∀ b ∈ bs, b.IsWellFormed) (hchain : bs.IsChain Block.Follows)
    (hfirst : ∀ b ∈ bs.head?, b.Fits p.current) :
    ((bs.flatMap Block.lines).foldl Progress.take p).closed =
        ⟨p.closed.sections ++ bs.filterMap Block.section?,
          p.closed.modules ++ bs.filterMap Block.module?⟩ ∧
      ((bs.flatMap Block.lines).foldl Progress.take p).warnings =
        p.warnings ++ bs.flatMap Block.warnings := by
  induction bs generalizing p with
  | nil => simp
  | cons b bs ih =>
      obtain ⟨hb, hrest⟩ := List.forall_mem_cons.1 hbs
      obtain ⟨hnext, htail⟩ := List.isChain_cons.1 hchain
      have htakes := takes_of_block hb (hfirst b rfl)
      have hfits : ∀ b' ∈ bs.head?, b'.Fits (b.lines.foldl Progress.take p).current := by
        intro b' hb'
        rw [htakes.current]
        exact Block.fits_current (hnext b' hb')
      obtain ⟨hclosed, hwarnings⟩ := ih hrest htail hfits
      rw [List.flatMap_cons, List.foldl_append, hclosed, hwarnings, htakes.sections,
        htakes.modules, htakes.warnings]
      constructor
      · cases hsection : b.section? <;> cases hmodule : b.module? <;>
          simp [hsection, hmodule]
      · rw [List.flatMap_cons, List.append_assoc]

/-- The parts of a text and the warnings about it are those of the blocks that it is cut into. -/
theorem IsCut.closed_ofLines (h : IsCut ls bs) :
    (ofLines ls).closed = ⟨bs.filterMap Block.section?, bs.filterMap Block.module?⟩ ∧
      (ofLines ls).warnings = bs.flatMap Block.warnings := by
  have hstart : ∀ b ∈ bs.head?, b.Fits Progress.start.current := by
    intro b _
    cases b <;> trivial
  have hrun := closed_foldl_take h.wellFormed h.follows hstart
  rw [h.lines] at hrun
  exact hrun

end Run

/-! ## There is one way to cut -/

section Cut

variable {b b' : Block} {bs init : List Block} {l : String} {ls : List String}

/-- The blocks after one more line. -/
def addLine (bs : List Block) (line : String) : List Block :=
  match lineKind line, bs.getLast? with
  | .header name, _ =>
    bs ++ [if name = mainModule then .mainHeader line else .auxiliary name line []]
  | _, some (.auxiliary name header behind) =>
    bs.dropLast ++ [.auxiliary name header (behind ++ [line])]
  | .opening kind keyword rest, _ => bs ++ [.opened kind keyword rest line []]
  | .plain, some (.opened kind keyword rest first behind) =>
    bs.dropLast ++ [.opened kind keyword rest first (behind ++ [line])]
  | .plain, _ => bs ++ [.stray line]

/-- The blocks that lines are cut into. -/
def blocksOf (ls : List String) : List Block :=
  ls.foldl addLine []

theorem isCut_nil : IsCut [] [] :=
  ⟨rfl, by simp, List.isChain_nil⟩

/-- One more block. -/
theorem isCut_concat_iff : IsCut ls (bs ++ [b]) ↔
    ∃ front, ls = front ++ b.lines ∧ IsCut front bs ∧ b.IsWellFormed ∧
      ∀ x ∈ bs.getLast?, x.Follows b := by
  have hlines : (bs ++ [b]).flatMap Block.lines = bs.flatMap Block.lines ++ b.lines := by
    rw [List.flatMap_append, List.flatMap_singleton]
  constructor
  · rintro ⟨rfl, hwellFormed, hchain⟩
    obtain ⟨hbs, hb⟩ := List.forall_mem_append.1 hwellFormed
    obtain ⟨hfollows, -, hlast⟩ := List.isChain_append.1 hchain
    refine ⟨_, hlines, ⟨rfl, hbs, hfollows⟩, hb b (by simp), ?_⟩
    intro x hx
    exact hlast x hx b rfl
  · rintro ⟨front, rfl, ⟨rfl, hbs, hfollows⟩, hb, hlast⟩
    refine ⟨hlines, List.forall_mem_append.2 ⟨hbs, List.forall_mem_singleton.2 hb⟩, ?_⟩
    refine List.isChain_append.2 ⟨hfollows, List.isChain_singleton b, ?_⟩
    intro x hx y hy
    obtain rfl := Option.some.inj hy
    exact hlast x hx

theorem IsCut.concat (h : IsCut ls bs) (hb : b.IsWellFormed)
    (hlast : ∀ x ∈ bs.getLast?, x.Follows b) : IsCut (ls ++ b.lines) (bs ++ [b]) :=
  isCut_concat_iff.2 ⟨ls, rfl, h, hb, hlast⟩

/-- Whether a block can come next depends on what the last one is, not on its lines. -/
theorem IsCut.replace_last (h : IsCut ls (bs ++ [b])) (hb : b'.IsWellFormed)
    (hlines : b'.lines = b.lines ++ [l]) (hfollows : ∀ x : Block, x.Follows b → x.Follows b') :
    IsCut (ls ++ [l]) (bs ++ [b']) := by
  obtain ⟨front, rfl, hfront, -, hlast⟩ := isCut_concat_iff.1 h
  rw [List.append_assoc, ← hlines]
  apply hfront.concat hb
  intro x hx
  exact hfollows x (hlast x hx)

variable {name header keyword rest first : String} {kind : SectionKind} {behind : List String}

theorem addLine_header (h : IsHeader name l) : addLine bs l =
    bs ++ [if name = mainModule then .mainHeader l else .auxiliary name l []] := by
  simp only [addLine, lineKind_eq_header_iff.2 h]

theorem addLine_auxiliary (h : ∀ next, ¬ IsHeader next l) :
    addLine (bs ++ [.auxiliary name header behind]) l =
      bs ++ [.auxiliary name header (behind ++ [l])] := by
  rw [addLine, List.getLast?_concat, List.dropLast_concat]
  cases hkind : lineKind l with
  | header next => exact absurd (lineKind_eq_header_iff.1 hkind) (h next)
  | opening kind keyword rest => rfl
  | plain => rfl

theorem addLine_opening (h : OpensSection kind keyword rest l)
    (hlast : ∀ x ∈ bs.getLast?, x.Follows (.opened kind keyword rest l behind)) :
    addLine bs l = bs ++ [.opened kind keyword rest l []] := by
  rw [addLine, lineKind_eq_opening_iff.2 h]
  cases hbs : bs.getLast? with
  | none => rfl
  | some x =>
      have hx := hlast x hbs
      cases x with
      | auxiliary => exact hx.elim
      | mainHeader => rfl
      | opened => rfl
      | stray => rfl

theorem addLine_opened (h : IsPlain l) :
    addLine (bs ++ [.opened kind keyword rest first behind]) l =
      bs ++ [.opened kind keyword rest first (behind ++ [l])] := by
  rw [addLine, lineKind_eq_plain_iff.2 h, List.getLast?_concat, List.dropLast_concat]

theorem addLine_stray (h : IsPlain l) (hlast : ∀ x ∈ bs.getLast?, x.Follows (.stray l)) :
    addLine bs l = bs ++ [.stray l] := by
  rw [addLine, lineKind_eq_plain_iff.2 h]
  cases hbs : bs.getLast? with
  | none => rfl
  | some x =>
      have hx := hlast x hbs
      cases x with
      | auxiliary => exact hx.elim
      | opened => exact hx.elim
      | mainHeader => rfl
      | stray => rfl

theorem foldl_addLine_auxiliary (h : ∀ l ∈ ls, ∀ next, ¬ IsHeader next l) :
    ls.foldl addLine (bs ++ [.auxiliary name header behind]) =
      bs ++ [.auxiliary name header (behind ++ ls)] := by
  induction ls generalizing behind with
  | nil => rw [List.foldl_nil, List.append_nil]
  | cons l ls ih =>
      obtain ⟨hl, hrest⟩ := List.forall_mem_cons.1 h
      rw [List.foldl_cons, addLine_auxiliary hl, ih hrest, List.append_assoc, List.singleton_append]

theorem foldl_addLine_opened (h : ∀ l ∈ ls, IsPlain l) :
    ls.foldl addLine (bs ++ [.opened kind keyword rest first behind]) =
      bs ++ [.opened kind keyword rest first (behind ++ ls)] := by
  induction ls generalizing behind with
  | nil => rw [List.foldl_nil, List.append_nil]
  | cons l ls ih =>
      obtain ⟨hl, hrest⟩ := List.forall_mem_cons.1 h
      rw [List.foldl_cons, addLine_opened hl, ih hrest, List.append_assoc, List.singleton_append]

/-- The lines of a block make this block. -/
theorem foldl_addLine_lines (hb : b.IsWellFormed) (hlast : ∀ x ∈ bs.getLast?, x.Follows b) :
    b.lines.foldl addLine bs = bs ++ [b] := by
  cases b with
  | mainHeader line =>
      rw [Block.lines, List.foldl_cons, List.foldl_nil, addLine_header hb, if_pos rfl]
  | auxiliary name header behind =>
      obtain ⟨hheader, hmain, hbehind⟩ := hb
      rw [Block.lines, List.foldl_cons, addLine_header hheader, if_neg hmain,
        foldl_addLine_auxiliary hbehind, List.nil_append]
  | opened kind keyword rest line behind =>
      obtain ⟨hopens, hbehind⟩ := hb
      rw [Block.lines, List.foldl_cons, addLine_opening hopens hlast,
        foldl_addLine_opened hbehind, List.nil_append]
  | stray line => rw [Block.lines, List.foldl_cons, List.foldl_nil, addLine_stray hb hlast]

theorem IsCut.blocksOf_eq (h : IsCut ls bs) : blocksOf ls = bs := by
  induction bs using List.reverseRecOn generalizing ls with
  | nil =>
      obtain rfl := h.lines
      rfl
  | append_singleton bs b ih =>
      obtain ⟨front, rfl, hfront, hb, hlast⟩ := isCut_concat_iff.1 h
      have hbs : front.foldl addLine [] = bs := ih hfront
      rw [blocksOf, List.foldl_append, hbs, foldl_addLine_lines hb hlast]

/-- A line that is no header goes on with an auxiliary module, whatever it begins with. -/
theorem IsCut.addLine_of_not_isHeader (h : IsCut ls (bs ++ [.auxiliary name header behind]))
    (hl : ∀ next, ¬ IsHeader next l) :
    IsCut (ls ++ [l]) (addLine (bs ++ [.auxiliary name header behind]) l) := by
  obtain ⟨-, -, -, ⟨hheader, hmain, hbehind⟩, -⟩ := isCut_concat_iff.1 h
  rw [addLine_auxiliary hl]
  refine h.replace_last ⟨hheader, hmain, ?_⟩ rfl ?_
  · exact List.forall_mem_append.2 ⟨hbehind, List.forall_mem_singleton.2 hl⟩
  · intro x _
    cases x <;> trivial

theorem IsCut.addLine_of_isPlain (h : IsCut ls (bs ++ [.opened kind keyword rest first behind]))
    (hl : IsPlain l) :
    IsCut (ls ++ [l]) (addLine (bs ++ [.opened kind keyword rest first behind]) l) := by
  obtain ⟨-, -, -, ⟨hopens, hbehind⟩, -⟩ := isCut_concat_iff.1 h
  rw [addLine_opened hl]
  refine h.replace_last ⟨hopens, ?_⟩ rfl ?_
  · exact List.forall_mem_append.2 ⟨hbehind, List.forall_mem_singleton.2 hl⟩
  · intro x hx
    cases x <;> exact hx

theorem Block.follows_opened_or_auxiliary (x : Block) :
    x.Follows (.opened kind keyword rest first behind) ∨
      ∃ name header lines, x = .auxiliary name header lines := by
  cases x with
  | auxiliary name header lines => exact .inr ⟨name, header, lines, rfl⟩
  | mainHeader => exact .inl trivial
  | opened => exact .inl trivial
  | stray => exact .inl trivial

theorem Block.follows_stray_or_inside (x : Block) : x.Follows (.stray l) ∨
    (∃ name header lines, x = .auxiliary name header lines) ∨
      ∃ kind keyword rest first lines, x = .opened kind keyword rest first lines := by
  cases x with
  | auxiliary name header lines => exact .inr (.inl ⟨name, header, lines, rfl⟩)
  | mainHeader => exact .inl trivial
  | opened kind keyword rest first lines =>
      exact .inr (.inr ⟨kind, keyword, rest, first, lines, rfl⟩)
  | stray => exact .inl trivial

/-- One more line, which opens a block or goes on with the last one. -/
theorem IsCut.addLine (h : IsCut ls bs) (l : String) : IsCut (ls ++ [l]) (addLine bs l) := by
  cases hkind : lineKind l with
  | header name =>
      have hl := lineKind_eq_header_iff.1 hkind
      rw [addLine_header hl]
      by_cases hmain : name = mainModule
      · rw [if_pos hmain]
        rw [hmain] at hl
        have hb : (Block.mainHeader l).IsWellFormed := hl
        refine h.concat hb ?_
        intro x _
        cases x <;> trivial
      · rw [if_neg hmain]
        have hb : (Block.auxiliary name l []).IsWellFormed := ⟨hl, hmain, by simp⟩
        refine h.concat hb ?_
        intro x _
        cases x <;> trivial
  | opening kind keyword rest =>
      have hl := lineKind_eq_opening_iff.1 hkind
      have hheader := not_isHeader_of_lineKind hkind (by simp)
      by_cases hlast : ∀ x ∈ bs.getLast?, x.Follows (.opened kind keyword rest l [])
      · rw [addLine_opening hl hlast]
        have hb : (Block.opened kind keyword rest l []).IsWellFormed := ⟨hl, by simp⟩
        exact h.concat hb hlast
      · obtain ⟨x, hx, hfollows⟩ := not_forall₂.1 hlast
        obtain ⟨front, rfl⟩ := List.getLast?_eq_some_iff.1 hx
        obtain ⟨name, header, lines, rfl⟩ := x.follows_opened_or_auxiliary.resolve_left hfollows
        exact h.addLine_of_not_isHeader hheader
  | plain =>
      have hl := lineKind_eq_plain_iff.1 hkind
      have hheader := not_isHeader_of_lineKind hkind (by simp)
      by_cases hlast : ∀ x ∈ bs.getLast?, x.Follows (.stray l)
      · rw [addLine_stray hl hlast]
        have hb : (Block.stray l).IsWellFormed := hl
        exact h.concat hb hlast
      · obtain ⟨x, hx, hfollows⟩ := not_forall₂.1 hlast
        obtain ⟨front, rfl⟩ := List.getLast?_eq_some_iff.1 hx
        obtain ⟨name, header, lines, rfl⟩ | ⟨kind, keyword, rest, first, lines, rfl⟩ :=
          x.follows_stray_or_inside.resolve_left hfollows
        · exact h.addLine_of_not_isHeader hheader
        · exact h.addLine_of_isPlain hl

theorem isCut_blocksOf (ls : List String) : IsCut ls (blocksOf ls) := by
  induction ls using List.reverseRecOn with
  | nil => exact isCut_nil
  | append_singleton ls l ih =>
      rw [blocksOf, List.foldl_append, List.foldl_cons, List.foldl_nil]
      exact ih.addLine l

theorem isCut_iff : IsCut ls bs ↔ bs = blocksOf ls := by
  constructor
  · intro h
    exact h.blocksOf_eq.symm
  · rintro rfl
    exact isCut_blocksOf ls

/-- A keyword inside of an auxiliary module opens nothing. -/
example : blocksOf ["MODULE main", "-- a plant", "VAR x : boolean;", "  y : boolean;",
    "MODULE valve", "VAR z : boolean;"] =
    [.mainHeader "MODULE main", .stray "-- a plant",
      .opened .var "VAR" "x : boolean;" "VAR x : boolean;" ["  y : boolean;"],
      .auxiliary "valve" "MODULE valve" ["VAR z : boolean;"]] := by
  decide +kernel

end Cut

/-! ## Lines outside of everything -/

section Stray

variable {line : String} {cs : List Char} {front : List Block}

/-- Since the beginning, or since the last header of the main module, there are stray lines only. -/
def EndsOutside (front : List Block) : Prop :=
  ∃ (earlier : List Block) (strays : List String), front = earlier ++ strays.map Block.stray ∧
    ∀ b ∈ earlier.getLast?, ∃ header, b = .mainHeader header

theorem endsOutside_of_isChain (h : (front ++ [Block.stray line]).IsChain Block.Follows) :
    EndsOutside front := by
  induction front using List.reverseRecOn generalizing line with
  | nil => exact ⟨[], [], rfl, by simp⟩
  | append_singleton front b ih =>
      obtain ⟨hfront, -, hlast⟩ := List.isChain_append.1 h
      have hb : b.Follows (.stray line) := hlast b (by simp) _ rfl
      cases b with
      | auxiliary => exact hb.elim
      | opened => exact hb.elim
      | mainHeader header => exact ⟨front ++ [.mainHeader header], [], by simp, by simp⟩
      | stray previous =>
          obtain ⟨earlier, strays, rfl, hearlier⟩ := ih hfront
          exact ⟨earlier, strays ++ [previous], by simp, hearlier⟩

/-- The line holds nothing but blanks and a comment. -/
def HoldsNoText (line : String) : Prop :=
  ∃ blanks comment, line.toList = blanks ++ comment ∧ (∀ b ∈ blanks, isBlank b) ∧
    (comment = [] ∨ ['-', '-'] <+: comment)

theorem beforeComment_dashes (h : ['-', '-'] <+: cs) : beforeComment cs = [] := by
  obtain ⟨rest, rfl⟩ := h
  exact (beforeComment_cons_cons '-' '-' rest).trans (if_pos ⟨rfl, rfl⟩)

/-- A comment begins with two dashes. -/
theorem exists_beforeComment_append (cs : List Char) :
    ∃ comment, cs = beforeComment cs ++ comment ∧ (comment = [] ∨ ['-', '-'] <+: comment) := by
  induction cs with
  | nil => exact ⟨[], rfl, .inl rfl⟩
  | cons c cs ih =>
      rcases cs with - | ⟨d, cs⟩
      · exact ⟨[], rfl, .inl rfl⟩
      · rw [beforeComment_cons_cons]
        split
        · next hdashes =>
            obtain ⟨rfl, rfl⟩ := hdashes
            exact ⟨_, rfl, .inr ⟨cs, rfl⟩⟩
        · obtain ⟨comment, heq, hcomment⟩ := ih
          exact ⟨comment, congrArg (c :: ·) heq, hcomment⟩

theorem trim_ofList_eq_empty_iff : trim (.ofList cs) = "" ↔ ∀ c ∈ cs, isBlank c := by
  constructor
  · intro h
    obtain ⟨front, rest, hfront, hrest, heq⟩ := exists_blanks_trim (.ofList cs)
    rw [h, String.toList_ofList] at heq
    rw [heq]
    exact List.forall_mem_append.2 ⟨hfront, hrest⟩
  · intro h
    have htrim := trim_blanks_append h []
    rwa [List.append_nil] at htrim

theorem trim_stripComment_eq_empty_iff : trim (stripComment line) = "" ↔ HoldsNoText line := by
  rw [stripComment, trim_ofList_eq_empty_iff]
  constructor
  · intro h
    obtain ⟨comment, hline, hcomment⟩ := exists_beforeComment_append line.toList
    exact ⟨_, comment, hline, h, hcomment⟩
  · rintro ⟨blanks, comment, hline, hblanks, hcomment⟩
    have hempty : beforeComment comment = [] := by
      obtain rfl | hdashes := hcomment
      · rfl
      · exact beforeComment_dashes hdashes
    rw [hline, beforeComment_append (dash_not_mem_of_blanks hblanks), hempty, List.append_nil]
    exact hblanks

end Stray

/-! ## Nothing is lost -/

/-- The blocks account for a model text. -/
structure Accounts (text : String) (bs : List Block) : Prop where
  /-- Each line is in one block, and the blocks are in the order of the lines. -/
  cut : IsCut (lines text) bs
  /-- The lines form no other blocks. -/
  unique : ∀ others, IsCut (lines text) others → others = bs
  /-- Sections and modules come from blocks of their own. -/
  sections : (parse text).sections = bs.filterMap Block.section?
  modules : (parse text).modules = bs.filterMap Block.module?
  /-- No line is stray inside of a section or a module. -/
  outside : ∀ front line back, bs = front ++ .stray line :: back → EndsOutside front
  /-- Only stray lines are warned about, and only those that hold text. -/
  warnings : Fragment.warnings text = bs.flatMap Block.warnings
  silent : ∀ line, HoldsNoText line → (Block.stray line).warnings = []
  warned : ∀ line, ¬ HoldsNoText line → (Block.stray line).warnings =
    ["Ignoring model text outside of any section: " ++ trim line]

/-- Parsing loses nothing. -/
theorem parse_accounts (text : String) : ∃ bs, Accounts text bs := by
  have hcut := isCut_blocksOf (lines text)
  obtain ⟨hclosed, hwarnings⟩ := hcut.closed_ofLines
  refine ⟨blocksOf (lines text), hcut, ?_, ?_, ?_, ?_, hwarnings, ?_, ?_⟩
  · intro others hothers
    exact isCut_iff.1 hothers
  · rw [parse, hclosed]
  · rw [parse, hclosed]
  · intro front line back hbs
    have hchain := hcut.follows
    rw [hbs, List.append_cons] at hchain
    exact endsOutside_of_isChain (List.isChain_append.1 hchain).1
  · intro line hline
    rw [Block.warnings, outsideWarning, if_pos (trim_stripComment_eq_empty_iff.2 hline)]
  · intro line hline
    rw [Block.warnings, outsideWarning, if_neg (mt trim_stripComment_eq_empty_iff.1 hline)]

end Fragment

end Punctual
