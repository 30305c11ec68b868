import Punctual.Proofs.Model.Declaration
import Punctual.Proofs.Model.Parsing
import Punctual.Proofs.Specification.Formula
import Punctual.Proofs.Text.Numeral
import Punctual.Specification.Deadlines

/-!
# Reading a deadline specification back

The specification of one target is written as a model text of two sections. Cutting the text into
parts gives these two sections again, and the one declaration in the first of them is that of the
counter (`DeadlineSpec.parse_text`, `Target.declarations_counterSection`), whatever characters stand
in the names of unit and task.
-/

namespace Punctual

open Text Fragment

/-! ## The characters of a declaration -/

theorem isVariableName_counterVariable (unit name : String) :
    IsVariableName (counterVariable unit name) := by
  have hidentifier (c : Char) : isVariableChar (identifierChar c) := by
    unfold identifierChar
    split
    · next h =>
        rcases Bool.or_eq_true_iff.1 h with halnum | hunderscore
        · simp [isVariableChar, halnum]
        · simp [isVariableChar, eq_of_beq hunderscore]
    · decide
  have hname (s : String) : ∀ c ∈ (String.ofList (s.toList.map identifierChar)).toList,
      isVariableChar c := by
    intro c hc
    rw [String.toList_ofList] at hc
    obtain ⟨d, -, rfl⟩ := List.mem_map.1 hc
    exact hidentifier d
  have hprefix : counterPrefix.toList.all isVariableChar := by decide
  have hbetween : "_".toList.all isVariableChar := by decide
  constructor
  · intro hempty
    have hlength := congrArg (fun s => s.toList.length) hempty
    simp [counterVariable, counterPrefix] at hlength
  · intro c hc
    unfold counterVariable at hc
    simp only [String.toList_append, List.mem_append] at hc
    rcases hc with (((hc | hc) | hc) | hc) | hc
    · exact List.all_eq_true.1 hprefix c hc
    · exact List.all_eq_true.1 hbetween c hc
    · exact hname unit c hc
    · exact List.all_eq_true.1 hbetween c hc
    · exact hname name c hc

theorem isVariableChar_of_isDigit {c : Char} (h : c.isDigit) : isVariableChar c := by
  simp [isVariableChar, Char.isAlphanum, h]

namespace Target

variable (g : Target)

/-- The type of the counter. -/
def range : String :=
  "0.." ++ toString g.count

/-- The declaration of the counter. -/
def declaration : String :=
  g.counter ++ " : " ++ g.range

theorem isVariableName_counter : IsVariableName g.counter :=
  isVariableName_counterVariable g.unit g.name

theorem endsSolid_range : EndsSolid g.range.toList := by
  obtain ⟨init, c, hdigits, hc⟩ := exists_concat_toString g.count
  have hsolid : EndsSolid (toString g.count).toList :=
    ⟨init, c, hdigits, isBlank_of_isVariableChar (isVariableChar_of_isDigit hc)⟩
  rw [range, String.toList_append]
  exact hsolid.append_left _

theorem isTypeText_range : IsTypeText g.range := by
  have hcons : g.range.toList = '0' :: ('.' :: '.' :: (toString g.count).toList) := by
    rw [range, String.toList_append]
    rfl
  refine ⟨trim_eq_self hcons (by decide) g.endsSolid_range, g.endsSolid_range, ?_⟩
  obtain ⟨init, c, hdigits, hc⟩ := exists_concat_toString g.count
  rw [range, String.toList_append, hdigits, ← List.append_assoc, List.getLast?_concat]
  rintro ⟨⟩
  exact absurd hc (by decide)

/-- Apart from blanks and the colon, all characters of the declaration can stand in names. -/
theorem not_mem_declaration {c : Char} (hc : isVariableChar c = false) (hblank : c ≠ ' ')
    (hcolon : c ≠ ':') : c ∉ g.declaration.toList := by
  intro hmem
  unfold declaration range at hmem
  simp only [String.toList_append, List.mem_append] at hmem
  rcases hmem with (hname | hbetween) | hdots | hdigits
  · exact g.isVariableName_counter.not_mem hc hname
  · have hthree : c ∈ [' ', ':', ' '] := hbetween
    simp [hblank, hcolon] at hthree
  · have hthree : c ∈ ['0', '.', '.'] := hdots
    have hall : ['0', '.', '.'].all isVariableChar := by decide
    rw [List.all_eq_true.1 hall c hthree] at hc
    simp at hc
  · rw [isVariableChar_of_isDigit (isDigit_of_mem_toString hdigits)] at hc
    simp at hc

theorem isLine_declaration : IsLine g.declaration :=
  g.not_mem_declaration (by decide) (by decide) (by decide)

theorem endsSolid_declaration : EndsSolid g.declaration.toList := by
  rw [declaration, String.toList_append]
  exact g.endsSolid_range.append_left _

theorem toList_declaration :
    g.declaration.toList = g.counter.toList ++ ' ' :: ':' :: ' ' :: g.range.toList := by
  rw [declaration, String.toList_append, String.toList_append, List.append_assoc]
  rfl

/-- The declaration is read as what it says. -/
theorem parseDeclaration_declaration :
    parseDeclaration g.declaration = .ok (g.counter, g.range) := by
  have hread := parseDeclaration_shown g.isVariableName_counter g.isTypeText_range [] (by simp)
  rw [List.append_nil, ← toList_declaration, String.ofList_toList] at hread
  exact hread

/-! ## The two sections -/

/-- The claim about the target, without the keyword in front of it. -/
def claim : String :=
  "AG(!(" ++ g.reachedByDeadline ++ "))"

/-- The section that declares the counter, as it stands in a specification. -/
def counterSection : Section :=
  ⟨.var, "VAR", ["    " ++ (g.declaration ++ ";"), ""]⟩

/-- The section that states the claim. -/
def claimSection : Section :=
  ⟨.spec, "SPEC", [g.claim]⟩

theorem specification_eq : g.specification = "SPEC" ++ " " ++ g.claim := by
  have hword : "SPEC AG(!(" = "SPEC" ++ " " ++ "AG(!(" := by decide
  rw [specification, hword, claim]
  simp only [String.append_assoc]

theorem isLine_claim : IsLine g.claim := by
  have hopen : IsLine "AG(!((" := by decide
  have hequals : IsLine " = " := by decide
  have hbetween : IsLine (") & (" ++ PlantState.timeVariable ++ " <= ") := by decide
  have hclose : IsLine ")))" := by decide
  have hinner : IsLine ("AG(!((" ++ g.counter ++ " = " ++ toString g.count ++
      (") & (" ++ PlantState.timeVariable ++ " <= ") ++ toString g.deadline ++ ")))") :=
    (((((hopen.append (isLine_counterVariable _ _)).append hequals).append
      (isLine_toString _)).append hbetween).append (isLine_toString_time g.deadline)).append hclose
  have hshown : g.claim = "AG(!((" ++ g.counter ++ " = " ++ toString g.count ++
      (") & (" ++ PlantState.timeVariable ++ " <= ") ++ toString g.deadline ++ ")))" := by
    have hopened : "AG(!((" = "AG(!(" ++ "(" := by decide
    have hclosed : ")))" = ")" ++ "))" := by decide
    rw [claim, reachedByDeadline, reachedBy, hopened, hclosed]
    simp only [String.append_assoc]
  rw [hshown]
  exact hinner

theorem endsSolid_claim : EndsSolid g.claim.toList := by
  have hclose : EndsSolid "))".toList := ⟨[')'], ')', rfl, by decide⟩
  rw [claim, String.toList_append]
  exact hclose.append_left _

theorem trim_claim : trim g.claim = g.claim := by
  have hcons : g.claim.toList = 'A' :: ("G(!(".toList ++ g.reachedByDeadline.toList ++ "))".toList) := by
    rw [claim, String.toList_append, String.toList_append]
    rfl
  exact trim_eq_self hcons (by decide) g.endsSolid_claim

theorem isLine_specification : IsLine g.specification := by
  have hword : IsLine ("SPEC" ++ " ") := by decide
  rw [specification_eq]
  exact hword.append g.isLine_claim

theorem endsSolid_specification : EndsSolid g.specification.toList := by
  rw [specification_eq, String.toList_append]
  exact g.endsSolid_claim.append_left _

theorem counterText_eq : Counter.text ⟨g.counter, g.count⟩ = g.declaration ++ ";" := by
  have hbetween : " : 0.." = " : " ++ "0.." := by decide
  rw [Counter.text, declaration, range, hbetween]
  simp only [String.append_assoc]

theorem isLine_counterLine : IsLine ("    " ++ (g.declaration ++ ";")) := by
  have hindent : IsLine "    " := by decide
  have hclose : IsLine ";" := by decide
  exact hindent.append (g.isLine_declaration.append hclose)

theorem endsSolid_counterText : EndsSolid (g.declaration ++ ";").toList := by
  rw [String.toList_append]
  exact (endsSolid_singleton (c := ';') (by decide)).append_left _

theorem endsSolid_counterLine : EndsSolid ("    " ++ (g.declaration ++ ";")).toList := by
  rw [String.toList_append]
  exact g.endsSolid_counterText.append_left _

/-- The line of the counter is none that opens a section. -/
theorem lineKind_counterLine : lineKind ("    " ++ (g.declaration ++ ";")) = .plain := by
  obtain ⟨c, cs, hcons, hc⟩ := g.isVariableName_counter.exists_cons
  have hline : (trimStart ("    " ++ (g.declaration ++ ";"))).toList =
      g.counter.toList ++ ' ' :: (':' :: ' ' :: g.range.toList ++ [';']) := by
    have hshown : ("    " ++ (g.declaration ++ ";")).toList =
        [' ', ' ', ' ', ' '] ++ (g.counter.toList ++ ' ' :: (':' :: ' ' :: g.range.toList ++ [';'])) := by
      rw [String.toList_append, String.toList_append, toList_declaration]
      simp
    have hblanks : [' ', ' ', ' ', ' '].all isBlank := by decide
    rw [toList_trimStart, hshown,
      List.dropWhile_append_of_pos (List.all_eq_true.1 hblanks), hcons, List.cons_append,
      List.dropWhile_cons_of_neg (by simp [hc])]
  have hword : ∀ d ∈ g.counter.toList, endsWord d = false := by
    intro d hd
    have hchar := g.isVariableName_counter.chars d hd
    have hparen : d ≠ '(' := by
      rintro rfl
      exact absurd hchar (by decide)
    simp [endsWord, isBlank_of_isVariableChar hchar, hparen]
  have hstart : g.counter.toList.take 6 = "COUNT_".toList := by
    unfold counter counterVariable
    simp [counterPrefix]
  have hmodule : g.counter ≠ moduleKeyword := by
    intro heq
    rw [heq] at hstart
    exact absurd hstart (by decide)
  have hnone : SectionKind.ofKeyword? g.counter = none := by
    unfold SectionKind.ofKeyword?
    split
    all_goals first
      | rfl
      | next heq =>
          rw [heq] at hstart
          exact absurd hstart (by decide)
  rw [lineKind_of_word hline hword hmodule, hnone]

theorem trim_counterText : trim (g.declaration ++ ";") = g.declaration ++ ";" := by
  obtain ⟨c, cs, hcons, hc⟩ := g.isVariableName_counter.exists_cons
  have hshown : (g.declaration ++ ";").toList =
      c :: (cs ++ ' ' :: ':' :: ' ' :: g.range.toList ++ [';']) := by
    rw [String.toList_append, toList_declaration, hcons]
    rfl
  exact trim_eq_self hshown hc g.endsSolid_counterText

theorem trim_counterLine : trim ("    " ++ (g.declaration ++ ";")) = g.declaration ++ ";" := by
  have hblanks : "    ".toList.all isBlank := by decide
  have hindented : trim ("    " ++ (g.declaration ++ ";")) = trim (g.declaration ++ ";") := by
    apply String.toList_injective
    rw [toList_trim, toList_trim, String.toList_append,
      List.dropWhile_append_of_pos (List.all_eq_true.1 hblanks)]
  exact hindented.trans g.trim_counterText

theorem stripComment_counterLine :
    stripComment ("    " ++ (g.declaration ++ ";")) = "    " ++ (g.declaration ++ ";") := by
  have hnone : '-' ∉ ("    " ++ (g.declaration ++ ";")).toList := by
    have hdeclaration : '-' ∉ g.declaration.toList :=
      g.not_mem_declaration (by decide) (by decide) (by decide)
    simp [String.toList_append, hdeclaration]
  exact stripComment_of_not_mem hnone

/-- The section of the counter holds one declaration. -/
theorem declarations_counterSection : g.counterSection.declarations = [g.declaration] := by
  have hne : g.declaration ++ ";" ≠ "" := g.endsSolid_counterText.ne_empty
  have hcontent : g.counterSection.content = g.declaration ++ ";" := by
    have hstrip : stripComment "" = "" := rfl
    have htrim : trim "" = "" := rfl
    simp [Section.content, counterSection, trimmedLines, stripComment_counterLine,
      trim_counterLine, hstrip, htrim, unlines, hne]
  have hsemicolon : ';' ∉ g.declaration.toList :=
    g.not_mem_declaration (by decide) (by decide) (by decide)
  have hpieces : semicolonPieces (g.declaration ++ ";").toList = [g.declaration.toList, []] := by
    rw [String.toList_append]
    exact semicolonPieces_concat hsemicolon
  have hsolid : isBlankText g.declaration = false := by
    obtain ⟨init, c, hchars, hc⟩ := g.endsSolid_declaration
    simp [isBlankText, hchars, hc]
  have hblank : isBlankText "" = true := rfl
  unfold Section.declarations
  rw [hcontent, hpieces]
  simp [hsolid, hblank]

end Target

namespace DeadlineSpec

variable {spec : DeadlineSpec} {g : Target}

theorem text_eq_unlines (hcounters : spec.counters = [⟨g.counter, g.count⟩])
    (htargets : spec.targets = [g]) :
    spec.text =
      unlines ["VAR", "    " ++ (g.declaration ++ ";"), "", g.specification] ++ "\n" := by
  have hcounter := g.counterText_eq
  apply String.toList_injective
  simp [text, declarations, hcounters, htargets, hcounter, unlines, String.join]

/-- The lines of the specification of one target. -/
theorem lines_text (hcounters : spec.counters = [⟨g.counter, g.count⟩])
    (htargets : spec.targets = [g]) :
    lines spec.text = ["VAR", "    " ++ (g.declaration ++ ";"), "", g.specification] := by
  have hisLine : ∀ l ∈ ["VAR", "    " ++ (g.declaration ++ ";"), "", g.specification],
      '\n' ∉ l.toList := by
    intro l hl
    simp only [List.mem_cons, List.not_mem_nil, or_false] at hl
    rcases hl with rfl | rfl | rfl | rfl
    · decide
    · exact g.isLine_counterLine
    · decide
    · exact g.isLine_specification
  have hkeyword : EndsSolid "VAR".toList := ⟨['V', 'A'], 'R', rfl, by decide⟩
  have hempty : dropCarriageReturn "".toList = "".toList := rfl
  rw [text_eq_unlines hcounters htargets, lines_ended, pieces_unlines (by simp) hisLine]
  simp only [List.map_cons, List.map_nil, dropCarriageReturn_of_endsSolid hkeyword, hempty,
    dropCarriageReturn_of_endsSolid g.endsSolid_counterLine,
    dropCarriageReturn_of_endsSolid g.endsSolid_specification, String.ofList_toList]

/-- Cut into parts, the specification of one target gives the section of its counter and the section
of its claim. -/
theorem parse_text (hcounters : spec.counters = [⟨g.counter, g.count⟩])
    (htargets : spec.targets = [g]) :
    parse spec.text = ⟨[g.counterSection, g.claimSection], []⟩ := by
  have hkeyword : lineKind "VAR" = .opening .var "VAR" "" := by decide
  have hclaim : lineKind g.specification = .opening .spec "SPEC" g.claim := by
    rw [g.specification_eq]
    exact lineKind_opening rfl g.trim_claim
  have hne : g.claim ≠ "" := g.endsSolid_claim.ne_empty
  unfold parse
  rw [lines_text hcounters htargets]
  simp only [ofLines, List.foldl_cons, List.foldl_nil, Progress.take, Progress.start, hkeyword,
    g.lineKind_counterLine, lineKind_empty, hclaim, Progress.closed, hne]
  rfl

end DeadlineSpec

end Punctual
