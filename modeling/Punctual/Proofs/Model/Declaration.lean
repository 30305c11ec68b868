import Punctual.Model.Merged
import Punctual.Proofs.Text.Trimming

/-!
# Reading declarations back

A merged model declares every variable in a section of its own, written as `name : type;`. Read as a
declaration again, such a line is about the same variable and no other one, whatever its type looks
like (`Section.declares_declarationSection`).
-/

namespace Punctual

open Text

/-! ## Dropping characters at the end -/

section Drop

variable {α : Type} {p : α → Bool}

/-- What stands in front of an element that stays is kept. -/
theorem rdropWhile_append_cons {a : α} (ha : p a = false) (front rest : List α) :
    (front ++ a :: rest).rdropWhile p = front ++ a :: rest.rdropWhile p := by
  induction rest using List.reverseRecOn with
  | nil =>
      have hstays : ¬ p a := by simp [ha]
      rw [List.rdropWhile_concat_neg _ _ _ hstays, List.rdropWhile_nil]
  | append_singleton rest b ih =>
      rw [← List.cons_append, ← List.append_assoc]
      by_cases hb : p b
      · rw [List.rdropWhile_concat_pos _ _ _ hb, List.rdropWhile_concat_pos _ _ _ hb, ih]
      · rw [List.rdropWhile_concat_neg _ _ _ hb, List.rdropWhile_concat_neg _ _ _ hb]
        simp

theorem rdropWhile_append_all {rest : List α} (h : ∀ a ∈ rest, p a) (front : List α) :
    (front ++ rest).rdropWhile p = front.rdropWhile p := by
  induction rest using List.reverseRecOn with
  | nil => rw [List.append_nil]
  | append_singleton rest a ih =>
      rw [← List.append_assoc, List.rdropWhile_concat_pos _ _ _ (h a (by simp))]
      exact ih fun b hb => h b (List.mem_append_left _ hb)

end Drop

/-! ## Names and types -/

/-- A name that a declaration can give to a variable. -/
structure IsVariableName (name : String) : Prop where
  ne_empty : name ≠ ""
  chars : ∀ c ∈ name.toList, isVariableChar c

theorem isBlank_of_isVariableChar {c : Char} (h : isVariableChar c) : isBlank c = false := by
  by_contra hblank
  simp only [Bool.not_eq_false, isBlank, Bool.or_eq_true, Bool.and_eq_true, decide_eq_true_eq,
    beq_iff_eq] at hblank
  unfold isVariableChar Char.isAlphanum Char.isAlpha Char.isUpper Char.isLower Char.isDigit at h
  simp only [Bool.or_eq_true, beq_iff_eq, Bool.and_eq_true, decide_eq_true_eq] at h
  have hcode : c.toNat = c.val.toNat := rfl
  rcases h with ((((((((⟨hlow, hhigh⟩ | ⟨hlow, hhigh⟩) | ⟨hlow, hhigh⟩) | rfl) | rfl) | rfl) | rfl) |
    rfl) | rfl)
  all_goals first
    | (have hleast := UInt32.le_iff_toNat_le.1 hlow
       have hmost := UInt32.le_iff_toNat_le.1 hhigh
       simp only [hcode] at hblank
       revert hleast hmost
       simp
       omega)
    | (revert hblank; decide)

/-- A type as declarations show it: no blank and no semicolon stands at its ends. -/
structure IsTypeText (type : String) : Prop where
  trimmed : trim type = type
  endsSolid : EndsSolid type.toList
  noSemicolon : type.toList.getLast? ≠ some ';'


theorem IsVariableName.not_mem {name : String} (h : IsVariableName name) {c : Char}
    (hc : isVariableChar c = false) : c ∉ name.toList := by
  intro hmem
  rw [h.chars c hmem] at hc
  simp at hc

/-- A name begins and ends with characters that are not blank. -/
theorem IsVariableName.exists_cons {name : String} (h : IsVariableName name) :
    ∃ c cs, name.toList = c :: cs ∧ isBlank c = false := by
  cases hname : name.toList with
  | nil => exact absurd (String.toList_eq_nil_iff.1 hname) h.ne_empty
  | cons c cs =>
      have hc := h.chars c (by simp [hname])
      exact ⟨c, cs, rfl, isBlank_of_isVariableChar hc⟩

theorem IsVariableName.endsSolid {name : String} (h : IsVariableName name) :
    EndsSolid name.toList := by
  have hne : name.toList ≠ [] := fun hnil => h.ne_empty (String.toList_eq_nil_iff.1 hnil)
  have hlast := h.chars _ (List.getLast_mem hne)
  exact ⟨_, _, (List.dropLast_append_getLast hne).symm, isBlank_of_isVariableChar hlast⟩

theorem IsVariableName.trim_eq {name : String} (h : IsVariableName name) : trim name = name := by
  obtain ⟨c, cs, hname, hc⟩ := h.exists_cons
  exact trim_eq_self hname hc h.endsSolid

/-- Every declaration that can be read gives a name and a type. -/
theorem isVariableName_of_parseDeclaration {declaration name type : String}
    (h : parseDeclaration declaration = .ok (name, type)) : IsVariableName name ∧ type ≠ "" := by
  unfold parseDeclaration at h
  dsimp only at h
  split at h
  · simp at h
  · split at h
    · next hgood =>
        obtain ⟨rfl, rfl⟩ := Prod.mk.inj (Except.ok.inj h)
        obtain ⟨hname, hchars, htype⟩ := hgood
        exact ⟨⟨hname, List.all_eq_true.1 hchars⟩, htype⟩
    · simp at h

/-! ## What a shown declaration is read as -/

/-- What is left of the characters behind the colon of a declaration. -/
def typeChars (rest : List Char) : List Char :=
  ((rest.rdropWhile isBlank).rdropWhile (· == ';')).rdropWhile isBlank

/-- A name, a blank and a colon are read as the name, whatever follows. -/
theorem parseDeclaration_of_name {name : String} (hname : IsVariableName name)
    (rest : List Char) :
    parseDeclaration (.ofList (name.toList ++ ' ' :: ':' :: rest)) =
      if trim (.ofList (typeChars rest)) ≠ "" then .ok (name, trim (.ofList (typeChars rest)))
      else .error (.malformedDeclaration (.ofList (name.toList ++ ' ' :: ':' :: typeChars rest))) := by
  obtain ⟨c, cs, hcons, hc⟩ := hname.exists_cons
  have hstart (more : List Char) : (name.toList ++ more).dropWhile isBlank = name.toList ++ more := by
    rw [hcons, List.cons_append, List.dropWhile_cons_of_neg (by simp [hc])]
  have hdrop (p : Char → Bool) (hp : p ':' = false) (more : List Char) :
      (name.toList ++ ' ' :: ':' :: more).rdropWhile p =
        name.toList ++ ' ' :: ':' :: more.rdropWhile p := by
    have hmoved := rdropWhile_append_cons hp (name.toList ++ [' ']) more
    simpa using hmoved
  have hcut : splitOnce? (.ofList (name.toList ++ ' ' :: ':' :: typeChars rest)) ':' =
      some (name ++ " ", .ofList (typeChars rest)) := by
    have hcolon : ':' ∉ name.toList ++ [' '] := by
      simpa using hname.not_mem (by decide)
    have hfound : cutAt? ':' (name.toList ++ ' ' :: ':' :: typeChars rest) =
        some (name.toList ++ [' '], typeChars rest) :=
      cutAt?_eq_some_iff.2 ⟨by simp, hcolon⟩
    rw [splitOnce?, String.toList_ofList, hfound]
    refine congrArg some (Prod.ext (String.toList_injective ?_) rfl)
    rw [String.toList_append, String.toList_ofList]
    rfl
  have htrimName : trim (name ++ " ") = name := by
    have hblank := trim_append_blanks name.toList (List.forall_mem_singleton.2 (by decide : isBlank ' '))
    rw [String.ofList_append, String.ofList_toList] at hblank
    exact hblank.trans hname.trim_eq
  have hread : trim (.ofList (dropEndWhile (· == ';')
      (trim (.ofList (name.toList ++ ' ' :: ':' :: rest))).toList)) =
        .ofList (name.toList ++ ' ' :: ':' :: typeChars rest) := by
    apply String.toList_injective
    rw [toList_trim, String.toList_ofList, dropEndWhile_eq, toList_trim, String.toList_ofList,
      hstart, hdrop _ (by decide), hdrop _ (by decide), hstart, hdrop _ (by decide),
      String.toList_ofList]
    rfl
  have hall : name.toList.all isVariableChar := List.all_eq_true.2 hname.chars
  unfold parseDeclaration
  dsimp only
  rw [hread, hcut]
  dsimp only
  rw [htrimName]
  simp only [ne_eq, hname.ne_empty, not_false_eq_true, hall, true_and]

/-- A type with any number of semicolons behind it is read as the type. -/
theorem typeChars_of_isTypeText {type : String} (h : IsTypeText type) {semicolons : List Char}
    (hs : ∀ c ∈ semicolons, c = ';') :
    typeChars (' ' :: (type.toList ++ semicolons)) = ' ' :: type.toList := by
  have hsolid : EndsSolid (' ' :: (type.toList ++ semicolons)) := by
    rcases List.eq_nil_or_concat' semicolons with rfl | ⟨init, last, rfl⟩
    · rw [List.append_nil]
      exact h.endsSolid.append_left [' ']
    · obtain rfl := hs last (by simp)
      have hlast := (endsSolid_singleton (c := ';') (by decide)).append_left
        (' ' :: (type.toList ++ init))
      simpa using hlast
  have hsolid' : EndsSolid (' ' :: type.toList) := h.endsSolid.append_left [' ']
  have hdropped : (' ' :: type.toList).rdropWhile (· == ';') = ' ' :: type.toList := by
    obtain ⟨init, c, htype, -⟩ := h.endsSolid
    have hc : ¬ (c == ';') := by
      have hlast := h.noSemicolon
      rw [htype, List.getLast?_concat] at hlast
      simpa using hlast
    rw [htype, ← List.cons_append]
    exact List.rdropWhile_concat_neg (fun d => d == ';') _ _ hc
  have hsemis : ∀ c ∈ semicolons, (c == ';') = true := by
    intro c hc
    rw [hs c hc]
    rfl
  unfold typeChars
  rw [hsolid.rdropWhile_eq, ← List.cons_append, rdropWhile_append_all hsemis, hdropped,
    hsolid'.rdropWhile_eq]

/-- A declaration that is shown with a type is read as its name and its type. -/
theorem parseDeclaration_shown {name type : String} (hname : IsVariableName name)
    (htype : IsTypeText type) (semicolons : List Char) (hs : ∀ c ∈ semicolons, c = ';') :
    parseDeclaration (.ofList (name.toList ++ ' ' :: ':' :: ' ' :: (type.toList ++ semicolons))) =
      .ok (name, type) := by
  have hne : type ≠ "" := htype.endsSolid.ne_empty
  have hshown : trim (.ofList (' ' :: type.toList)) = type := by
    have hdropped : trim (.ofList (' ' :: type.toList)) = trim type := by
      apply String.toList_injective
      rw [toList_trim, toList_trim, String.toList_ofList,
        List.dropWhile_cons_of_pos (by decide)]
    exact hdropped.trans htype.trimmed
  rw [parseDeclaration_of_name hname, typeChars_of_isTypeText htype hs, hshown, if_pos hne]

/-! ## Declarations in the body of a section -/

theorem stripComment_of_not_mem {line : String} (h : '-' ∉ line.toList) :
    stripComment line = line := by
  have hkept : ∀ cs : List Char, '-' ∉ cs → beforeComment cs = cs := by
    intro cs hcs
    induction cs with
    | nil => rfl
    | cons c cs ih =>
        obtain ⟨hc, hrest⟩ := not_or.1 (List.mem_cons.not.1 hcs)
        cases cs with
        | nil => rfl
        | cons d ds => rw [beforeComment, if_neg (fun hdash => hc hdash.1.symm), ih hrest]
  rw [stripComment, hkept _ h, String.ofList_toList]

theorem semicolonPieces_concat {cs : List Char} (h : ';' ∉ cs) :
    semicolonPieces (cs ++ [';']) = [cs, []] := by
  induction cs with
  | nil => rfl
  | cons c cs ih =>
      obtain ⟨hc, hrest⟩ := not_or.1 (List.mem_cons.not.1 h)
      rw [List.cons_append, semicolonPieces, if_neg (Ne.symm hc), ih hrest]

/-! ## Sections that declare a variable -/

/-- The variable that a line declares. -/
def declaredName? (line : String) : Option String :=
  match parseDeclaration line with
  | .ok (name, _) => some name
  | .error _ => none

/-- The section declares a variable. -/
def Section.declares (name : String) (s : Section) : Bool :=
  s.kind.isDeclaration && s.body.any (declaredName? · = some name)

theorem declarationLine_eq (name type : String) :
    name ++ " : " ++ type ++ ";" =
      .ofList (name.toList ++ ' ' :: ':' :: ' ' :: (type.toList ++ [';'])) := by
  apply String.toList_injective
  rw [String.toList_append, String.toList_append, String.toList_append, String.toList_ofList]
  simp

/-- A section that was made for one variable declares no other one. -/
theorem Section.not_declares_declarationSection (kind : SectionKind) (type : String)
    {name other : String} (hname : IsVariableName name) (hne : name ≠ other) :
    (Merge.declarationSection kind name type).declares other = false := by
  have hline : declaredName? (name ++ " : " ++ type ++ ";") ≠ some other := by
    unfold declaredName?
    rw [declarationLine_eq, parseDeclaration_of_name hname]
    split
    · next heq =>
        split at heq
        · obtain ⟨rfl, -⟩ := Prod.mk.inj (Except.ok.inj heq)
          simpa using hne
        · simp at heq
    · simp
  simp [Section.declares, Merge.declarationSection, hline]

theorem Section.declares_declarationSection {kind : SectionKind} {name type : String}
    (hkind : kind.isDeclaration) (hname : IsVariableName name) (htype : IsTypeText type) :
    (Merge.declarationSection kind name type).declares name := by
  have hline : declaredName? (name ++ " : " ++ type ++ ";") = some name := by
    unfold declaredName?
    rw [declarationLine_eq, parseDeclaration_shown hname htype [';'] (by simp)]
  simp [Section.declares, Merge.declarationSection, hkind, hline]

end Punctual
