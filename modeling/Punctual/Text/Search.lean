/-!
# Searching and cutting texts

Occurrences of one text in another, and cuts at the first occurrence of a character. The work is
done on lists of characters, where a cut is a prefix and a rest.
-/

namespace Punctual.Text

/-- The list `needle` occurs in the second list without a gap. -/
def hasInfix (needle : List Char) : List Char → Bool
  | [] => needle.isEmpty
  | c :: cs => needle.isPrefixOf (c :: cs) || hasInfix needle cs

theorem hasInfix_iff {needle cs : List Char} :
    hasInfix needle cs = true ↔ needle <:+: cs := by
  induction cs with
  | nil => cases needle <;> simp [hasInfix]
  | cons c cs ih => simp [hasInfix, ih, List.infix_cons_iff]

/-- The text `needle` occurs in `s`. -/
def contains (s needle : String) : Bool :=
  hasInfix needle.toList s.toList

/-- The text starts with `start`. -/
def startsWith (s start : String) : Bool :=
  start.toList.isPrefixOf s.toList

/-- The rest of the characters after `start`, if they begin with it. -/
def dropStart? : List Char → List Char → Option (List Char)
  | [], cs => some cs
  | _ :: _, [] => none
  | p :: ps, c :: cs => if p = c then dropStart? ps cs else none

theorem dropStart?_eq_some_iff {ps cs rest : List Char} :
    dropStart? ps cs = some rest ↔ cs = ps ++ rest := by
  induction ps generalizing cs with
  | nil => simp [dropStart?, eq_comm]
  | cons p ps ih =>
    cases cs with
    | nil => simp [dropStart?]
    | cons c cs =>
      by_cases h : p = c
      · simp [dropStart?, h, ih]
      · simp [dropStart?, h, Ne.symm h]

/-- The characters before and after the first `sep`, if there is one. -/
def cutAt? (sep : Char) : List Char → Option (List Char × List Char)
  | [] => none
  | c :: cs =>
    if c = sep then some ([], cs)
    else (cutAt? sep cs).map fun (before, after) => (c :: before, after)

theorem cutAt?_eq_some_iff {sep : Char} {cs before after : List Char} :
    cutAt? sep cs = some (before, after) ↔ cs = before ++ sep :: after ∧ sep ∉ before := by
  induction cs generalizing before with
  | nil => simp [cutAt?]
  | cons c cs ih =>
    by_cases h : c = sep
    · subst h
      cases before with
      | nil => simp [cutAt?, eq_comm]
      | cons b bs => simp +contextual [cutAt?, eq_comm]
    · cases before with
      | nil => simp [cutAt?, h]
      | cons b bs =>
        simp only [cutAt?, h, if_false, Option.map_eq_some_iff, Prod.mk.injEq, Prod.exists,
          List.cons_append, List.cons.injEq, List.mem_cons, not_or]
        constructor
        · rintro ⟨x, y, hxy, ⟨rfl, rfl⟩, rfl⟩
          obtain ⟨h1, h2⟩ := ih.1 hxy
          exact ⟨⟨rfl, h1⟩, Ne.symm h, h2⟩
        · rintro ⟨⟨rfl, h1⟩, _, h2⟩
          exact ⟨bs, after, ih.2 ⟨h1, h2⟩, ⟨rfl, rfl⟩, rfl⟩

/-- The texts before and after the first `sep`. -/
def splitOnce? (s : String) (sep : Char) : Option (String × String) :=
  (cutAt? sep s.toList).map fun (before, after) => (.ofList before, .ofList after)

/-- Every occurrence of `o :: os`, from left to right and without overlap, becomes `new`. -/
def replaceChars (o : Char) (os new : List Char) : List Char → List Char
  | [] => []
  | c :: cs =>
    match _h : dropStart? (o :: os) (c :: cs) with
    | some rest => new ++ replaceChars o os new rest
    | none => c :: replaceChars o os new cs
termination_by cs => cs.length
decreasing_by
  · rw [dropStart?_eq_some_iff] at _h
    rw [_h, List.length_append, List.length_cons]
    omega
  · exact Nat.lt_succ_self _

/-- Every occurrence of `old` becomes `new`; an empty `old` occurs nowhere. -/
def replace (s old new : String) : String :=
  match old.toList with
  | [] => s
  | o :: os => .ofList (replaceChars o os new.toList s.toList)

end Punctual.Text
