import Punctual.PlantState
import Punctual.Proofs.Solver.Report
import Punctual.Proofs.Text.Cuts
import Punctual.Proofs.Text.Numeral

/-!
# Times of a trace

A trace assigns integers to variables, one on each line, below headers and remarks. Its times are
looked for without regard to where a name begins or whether a number has a sign: the times found are
all numbers that are not negative and whose variable has a name that ends in the letters `time`
(`assignments_trace`). They are the values of the variable `time` itself just if no such value is
negative or out of range, and no other variable whose name ends so has a value that is neither
(`completionTimes_trace`).
-/

namespace Punctual

namespace Output

open Text

/-- The letters behind which a time is looked for. -/
abbrev timeLetters : List Char :=
  ['t', 'i', 'm', 'e']

/-! ## Lines of a trace -/

/-- Blanks within a line. -/
structure Spacing where
  text : String
  blank : ∀ c ∈ text.toList, isBlank c
  inline : '\n' ∉ text.toList

/-- The name of a variable. -/
structure Identifier where
  text : String
  ne_empty : text ≠ ""
  solid : ∀ c ∈ text.toList, isBlank c = false ∧ c ≠ '='

/-- A line that assigns an integer to a variable. -/
structure Assignment where
  indent : Spacing
  name : Identifier
  before : Spacing
  after : Spacing
  /-- How many zeros stand in front of the value. -/
  zeros : Nat
  value : Int
  ending : Spacing

namespace Assignment

/-- The digits of the value. -/
def digits (a : Assignment) : List Char :=
  List.replicate a.zeros '0' ++ (toString a.value.natAbs).toList

/-- The sign of the value. -/
def sign (a : Assignment) : List Char :=
  if a.value < 0 then ['-'] else []

def text (a : Assignment) : String :=
  a.indent.text ++ a.name.text ++ a.before.text ++ "=" ++ a.after.text ++ .ofList a.sign ++
    .ofList a.digits ++ a.ending.text

end Assignment

/-- A line of a trace. -/
inductive TraceLine
  | assigns (a : Assignment)
  /-- A header or a remark. -/
  | remark (text : String) (inline : '\n' ∉ text.toList) (plain : '=' ∉ text.toList)

namespace TraceLine

def text : TraceLine → String
  | assigns a => a.text
  | remark text _ _ => text

/-- The value that the line assigns to a variable. -/
def valueOf? (name : String) : TraceLine → Option Int
  | assigns a => if a.name.text = name then some a.value else none
  | remark .. => none

/-- The digits that are found in the line. -/
def found? : TraceLine → Option (List Char)
  | assigns a =>
    if timeLetters <:+ a.name.text.toList ∧ 0 ≤ a.value then some a.digits else none
  | remark .. => none

end TraceLine

/-! ## Characters that are passed over -/

/-- The code points of the blanks. -/
def blankPoints : List Nat :=
  [0x09, 0x0A, 0x0B, 0x0C, 0x0D, 0x20, 0x85, 0xA0, 0x1680, 0x2000, 0x2001, 0x2002, 0x2003, 0x2004,
    0x2005, 0x2006, 0x2007, 0x2008, 0x2009, 0x200A, 0x2028, 0x2029, 0x202F, 0x205F, 0x3000]

theorem mem_blankPoints {c : Char} (h : isBlank c) : c.toNat ∈ blankPoints := by
  simp only [isBlank, Bool.or_eq_true, Bool.and_eq_true, decide_eq_true_eq, beq_iff_eq] at h
  simp only [blankPoints, List.mem_cons, List.not_mem_nil, or_false]
  omega

/-- A blank is no digit of any script. -/
theorem isDecimalDigit_of_isBlank {c : Char} (h : isBlank c) : isDecimalDigit c = false := by
  have hapart : blankPoints.all fun n =>
      !zeroDigits.any fun first => first ≤ n && n < first + 10 := by
    decide +kernel
  simpa [isDecimalDigit] using List.all_eq_true.1 hapart c.toNat (mem_blankPoints h)

theorem isBlank_of_isDigit {c : Char} (h : c.isDigit) : isBlank c = false := by
  by_contra hblank
  have hnone := isDecimalDigit_of_isBlank (eq_true_of_ne_false hblank)
  rw [isDecimalDigit_of_isDigit h] at hnone
  simp at hnone

section Characters

variable {l cs : List Char}

theorem not_mem_of_isBlank (h : ∀ c ∈ l, isBlank c) {d : Char} (hd : isBlank d = false) :
    d ∉ l := by
  intro hmem
  rw [h d hmem] at hd
  simp at hd

/-- Without its first letter, no name is found. -/
theorem assignments_append_of_not_mem (h : 't' ∉ l) : assignments (l ++ cs) = assignments cs := by
  induction l with
  | nil => rfl
  | cons c l ih =>
      obtain ⟨hc, hl⟩ := List.ne_and_not_mem_of_not_mem_cons h
      have hnone : assignment? (c :: (l ++ cs)) = none := by
        simp [assignment?, dropStart?, hc]
      rw [List.cons_append, assignments_cons_of_none hnone, ih hl]

/-- No equality sign comes behind the blanks in front. -/
def Unassigned (cs : List Char) : Prop :=
  (cs.dropWhile isBlank).head? ≠ some '='

theorem assignment?_of_unassigned (h : Unassigned cs) : assignment? (timeLetters ++ cs) = none := by
  have hdrop : dropStart? timeLetters (timeLetters ++ cs) = some cs :=
    dropStart?_eq_some_iff.2 rfl
  unfold assignment?
  rw [hdrop]
  dsimp only
  split
  · next rest heq =>
    rw [Unassigned, heq] at h
    exact absurd rfl h
  · rfl

theorem assignment?_of_not_prefix (h : ¬ timeLetters <+: cs) : assignment? cs = none := by
  unfold assignment?
  cases hdrop : dropStart? timeLetters cs with
  | none => rfl
  | some rest => exact absurd ⟨rest, (dropStart?_eq_some_iff.1 hdrop).symm⟩ h

/-- A text that holds no equality sign keeps what is behind it unassigned. -/
theorem Unassigned.append (h : '=' ∉ l) (hcs : Unassigned cs) : Unassigned (l ++ cs) := by
  induction l with
  | nil => exact hcs
  | cons c l ih =>
      obtain ⟨hc, hl⟩ := List.ne_and_not_mem_of_not_mem_cons h
      unfold Unassigned
      rw [List.cons_append, List.dropWhile_cons]
      split
      · exact ih hl
      · simpa using hc.symm

/-- A text that ends solid, and holds no equality sign, leaves nothing to be assigned behind it. -/
theorem unassigned_of_endsSolid (h : '=' ∉ l) (hsolid : EndsSolid l) : Unassigned (l ++ cs) := by
  obtain ⟨init, c, rfl, hc⟩ := hsolid
  have hinit : '=' ∉ init := fun hmem => h (List.mem_append_left _ hmem)
  have hlast : c ≠ '=' := fun heq => h (by simp [heq])
  rw [List.append_assoc]
  refine Unassigned.append hinit ?_
  simp [Unassigned, hc, hlast]

/-- The letters that begin in front of a text end there. -/
def Bounds (cs : List Char) : Prop :=
  ∀ l, timeLetters <+: l ++ cs → timeLetters <+: l

theorem bounds_cons {c : Char} (h : c ∉ timeLetters) (cs : List Char) : Bounds (c :: cs) :=
  fun _ => (prefix_append_cons_iff h).1

/-- Behind a line comes nothing, or a line that begins with no equality sign. -/
inductive Follows : List Char → Prop
  | nothing : Follows []
  | line {cs : List Char} (h : Unassigned cs) : Follows ('\n' :: cs)

theorem Follows.unassigned (h : Follows cs) : Unassigned cs := by
  cases h with
  | nothing => simp [Unassigned]
  | @line cs h =>
      have hblank : isBlank '\n' := by decide
      simpa [Unassigned, hblank] using h

theorem Follows.bounds (h : Follows cs) : Bounds cs := by
  cases h with
  | nothing => exact fun l hl => by rwa [List.append_nil] at hl
  | @line cs h => exact bounds_cons (by decide) cs

/-- A header or a remark assigns nothing. -/
theorem assignments_append_of_plain (h : '=' ∉ l) (hcs : Follows cs) :
    assignments (l ++ cs) = assignments cs := by
  induction l with
  | nil => rfl
  | cons c l ih =>
      have hnone : assignment? (c :: l ++ cs) = none := by
        by_cases hprefix : timeLetters <+: c :: l ++ cs
        · obtain ⟨rest, hrest⟩ := hcs.bounds _ hprefix
          rw [← hrest] at h ⊢
          rw [List.append_assoc]
          exact assignment?_of_unassigned
            (hcs.unassigned.append fun hmem => h (List.mem_append_right _ hmem))
        · exact assignment?_of_not_prefix hprefix
      exact (assignments_cons_of_none hnone).trans (ih (List.not_mem_of_not_mem_cons h))

end Characters

/-! ## Names in front of an equality sign -/

section Names

variable {l cs : List Char}

theorem endsSolid_of_append {ds : List Char} (h : EndsSolid (l ++ ds)) (hne : ds ≠ []) :
    EndsSolid ds := by
  obtain ⟨init, c, heq, hc⟩ := h
  obtain ⟨front, d, rfl⟩ := (List.eq_nil_or_concat' ds).resolve_left hne
  rw [← List.append_assoc] at heq
  obtain ⟨-, hlast⟩ := List.append_inj' heq rfl
  obtain rfl := List.singleton_inj.1 hlast
  exact ⟨front, d, rfl, hc⟩

theorem endsSolid_of_forall (hne : l ≠ []) (h : ∀ c ∈ l, isBlank c = false) : EndsSolid l :=
  ⟨_, _, (List.dropLast_append_getLast hne).symm, h _ (List.getLast_mem hne)⟩

/-- No assignment begins with a name, unless the name is the letters themselves. -/
theorem assignment?_append_of_ne (hbounds : Bounds cs) (hplain : '=' ∉ l) (hsolid : EndsSolid l)
    (hne : l ≠ timeLetters) : assignment? (l ++ cs) = none := by
  by_cases hprefix : timeLetters <+: l ++ cs
  · obtain ⟨rest, rfl⟩ := hbounds _ hprefix
    have hrest : rest ≠ [] := by
      rintro rfl
      exact hne (List.append_nil _)
    rw [List.append_assoc]
    exact assignment?_of_unassigned (unassigned_of_endsSolid
      (fun hmem => hplain (List.mem_append_right _ hmem)) (endsSolid_of_append hsolid hrest))
  · exact assignment?_of_not_prefix hprefix

/-- A name that does not end in the letters is passed over. -/
theorem assignments_append_of_not_suffix (hbounds : Bounds cs) (hplain : '=' ∉ l)
    (hsolid : ∀ c ∈ l, isBlank c = false) (hsuffix : ¬ timeLetters <:+ l) :
    assignments (l ++ cs) = assignments cs := by
  induction l with
  | nil => rfl
  | cons c l ih =>
      have hends := endsSolid_of_forall (List.cons_ne_nil c l) hsolid
      have hne : c :: l ≠ timeLetters := by
        intro heq
        rw [heq] at hsuffix
        exact hsuffix (List.suffix_refl _)
      have hnone := assignment?_append_of_ne hbounds hplain hends hne
      have hrest := ih (List.not_mem_of_not_mem_cons hplain)
        (fun d hd => hsolid d (List.mem_cons_of_mem _ hd))
        fun h => hsuffix (h.trans (List.suffix_cons c l))
      exact (assignments_cons_of_none hnone).trans hrest

/-- Of a name that ends in the letters, only they are looked at. -/
theorem assignments_append_of_suffix (hbounds : Bounds cs) (hplain : '=' ∉ l)
    (hsuffix : timeLetters <:+ l) :
    assignments (l ++ cs) = assignments (timeLetters ++ cs) := by
  obtain ⟨front, rfl⟩ := hsuffix
  induction front with
  | nil => rfl
  | cons c front ih =>
      have hends : EndsSolid (c :: front ++ timeLetters) :=
        EndsSolid.append_left _ ⟨['t', 'i', 'm'], 'e', rfl, by decide⟩
      have hne : c :: front ++ timeLetters ≠ timeLetters := by
        intro heq
        have hlength := congrArg List.length heq
        simp at hlength
      have hnone := assignment?_append_of_ne hbounds hplain hends hne
      have hrest := ih fun hmem => hplain (List.mem_cons_of_mem _ hmem)
      exact (assignments_cons_of_none hnone).trans hrest

end Names

/-! ## Lines that assign -/

section Assigning

variable {cs : List Char}

theorem Spacing.not_mem (s : Spacing) {c : Char} (hc : isBlank c = false) : c ∉ s.text.toList :=
  not_mem_of_isBlank s.blank hc

/-- What is behind the blanks is what is read. -/
theorem Spacing.dropWhile_append (s : Spacing) {c : Char} (hc : isBlank c = false) :
    (s.text.toList ++ c :: cs).dropWhile isBlank = c :: cs := by
  have hall : s.text.toList.dropWhile isBlank = [] :=
    List.dropWhile_eq_nil_iff.2 s.blank
  rw [dropWhile_append_cons hc, hall, List.nil_append]

namespace Assignment

variable (a : Assignment)

/-- What stands behind the name of the variable. -/
def tail : List Char :=
  a.before.text.toList ++ '=' ::
    (a.after.text.toList ++ (a.sign ++ (a.digits ++ a.ending.text.toList)))

theorem toList_text : a.text.toList = a.indent.text.toList ++ (a.name.text.toList ++ a.tail) := by
  simp [text, tail, String.toList_append]

theorem digits_ne_nil : a.digits ≠ [] :=
  List.append_ne_nil_of_right_ne_nil _ (toList_toString_ne_nil _)

theorem isDigit_of_mem_digits {c : Char} (h : c ∈ a.digits) : c.isDigit := by
  rcases List.mem_append.1 h with hzero | hvalue
  · rw [(List.mem_replicate.1 hzero).2]
    decide
  · exact isDigit_of_mem_toString hvalue

theorem nat?_digits : nat? a.digits = some a.value.natAbs := by
  have hzeros (n : Nat) (ds : List Char) :
      natOfDigits (List.replicate n '0' ++ ds) = natOfDigits ds := by
    induction n with
    | zero => rfl
    | succ n ih => exact ih
  have hall : a.digits.all Char.isDigit :=
    List.all_eq_true.2 fun c hc => a.isDigit_of_mem_digits hc
  have hne : a.digits.isEmpty = false := List.isEmpty_eq_false_iff.2 a.digits_ne_nil
  rw [nat?, hall, hne, digits, hzeros, natOfDigits_toString]
  rfl

theorem bounds_tail : Bounds (a.tail ++ cs) := by
  unfold tail
  cases hbefore : a.before.text.toList with
  | nil => exact bounds_cons (by decide) _
  | cons c blanks =>
      have hc : isBlank c := a.before.blank c (by simp [hbefore])
      refine bounds_cons (fun hmem => ?_) _
      revert hc
      simp only [timeLetters, List.mem_cons, List.not_mem_nil, or_false] at hmem
      rcases hmem with rfl | rfl | rfl | rfl <;> decide

theorem not_mem_tail : 't' ∉ a.tail := by
  have hblank : isBlank 't' = false := by decide
  have hdigit : 't' ∉ a.digits := fun h => absurd (a.isDigit_of_mem_digits h) (by decide)
  have hsign : 't' ∉ a.sign := by
    unfold sign
    split <;> decide
  simp [tail, a.before.not_mem hblank, a.after.not_mem hblank, a.ending.not_mem hblank, hdigit,
    hsign]

/-- What is read behind the equality sign are the digits that come first. -/
theorem assignment?_behind {c : Char} (hc : isBlank c = false) (rest : List Char) :
    assignment?
        (timeLetters ++ (a.before.text.toList ++ '=' :: (a.after.text.toList ++ c :: rest))) =
      if ((c :: rest).takeWhile isDecimalDigit).isEmpty then none
      else some ((c :: rest).takeWhile isDecimalDigit, (c :: rest).dropWhile isDecimalDigit) := by
  have hequals : isBlank '=' = false := by decide
  unfold assignment?
  rw [dropStart?_eq_some_iff.2 rfl]
  simp only [a.before.dropWhile_append hequals, a.after.dropWhile_append hc]

/-- The digits of a value end with the line. -/
theorem span_digits (hcs : Follows cs) :
    (a.digits ++ (a.ending.text.toList ++ cs)).takeWhile isDecimalDigit = a.digits ∧
      (a.digits ++ (a.ending.text.toList ++ cs)).dropWhile isDecimalDigit =
        a.ending.text.toList ++ cs := by
  have hdigits : ∀ c ∈ a.digits, isDecimalDigit c :=
    fun c hc => isDecimalDigit_of_isDigit (a.isDigit_of_mem_digits hc)
  have hrest : (a.ending.text.toList ++ cs).head?.all isBlank := by
    cases hending : a.ending.text.toList with
    | nil =>
        cases hcs with
        | nothing => rfl
        | line => simp only [List.nil_append, List.head?_cons, Option.all_some]; decide
    | cons c blanks => exact a.ending.blank c (by simp [hending])
  rw [List.takeWhile_append_of_pos hdigits, List.dropWhile_append_of_pos hdigits]
  cases hbehind : a.ending.text.toList ++ cs with
  | nil => simp
  | cons c rest =>
      rw [hbehind] at hrest
      have hc := isDecimalDigit_of_isBlank hrest
      simp [hc]

/-- The digits of a value without a sign are read up to what follows the line. -/
theorem assignment?_of_nonneg (hvalue : 0 ≤ a.value) (hcs : Follows cs) :
    assignment? (timeLetters ++ (a.tail ++ cs)) = some (a.digits, a.ending.text.toList ++ cs) := by
  have hsign : a.sign = [] := if_neg (Int.not_lt.2 hvalue)
  obtain ⟨first, others, hfirst⟩ := List.exists_cons_of_ne_nil a.digits_ne_nil
  have hmem : first ∈ a.digits := by simp [hfirst]
  have hsolid := isBlank_of_isDigit (a.isDigit_of_mem_digits hmem)
  have htail : a.tail ++ cs = a.before.text.toList ++ '=' :: (a.after.text.toList ++
      first :: (others ++ (a.ending.text.toList ++ cs))) := by
    simp [tail, hsign, hfirst]
  obtain ⟨htake, hdrop⟩ := a.span_digits hcs
  rw [hfirst, List.cons_append] at htake hdrop
  rw [htail, a.assignment?_behind hsolid, htake, hdrop, hfirst]
  rfl

theorem assignment?_of_neg (hvalue : a.value < 0) :
    assignment? (timeLetters ++ (a.tail ++ cs)) = none := by
  have hsign : a.sign = ['-'] := if_pos hvalue
  have hdash : isBlank '-' = false := by decide
  have hdigit : isDecimalDigit '-' = false := by decide
  have htail : a.tail ++ cs = a.before.text.toList ++ '=' :: (a.after.text.toList ++
      '-' :: (a.digits ++ a.ending.text.toList ++ cs)) := by
    simp [tail, hsign]
  rw [htail, a.assignment?_behind hdash]
  simp [hdigit]

/-- Only a name that ends in the letters, with a value that has no sign, is found. -/
theorem assignments_append (hcs : Follows cs) :
    assignments (a.text.toList ++ cs) =
      (TraceLine.found? (.assigns a)).toList ++ assignments cs := by
  have hblank : isBlank 't' = false := by decide
  have hplain : '=' ∉ a.name.text.toList := fun h => (a.name.solid _ h).2 rfl
  have hquiet : assignments (a.tail ++ cs) = assignments cs :=
    assignments_append_of_not_mem a.not_mem_tail
  rw [toList_text, List.append_assoc, assignments_append_of_not_mem (a.indent.not_mem hblank),
    List.append_assoc, TraceLine.found?]
  by_cases hsuffix : timeLetters <:+ a.name.text.toList
  · rw [assignments_append_of_suffix a.bounds_tail hplain hsuffix]
    rcases Int.lt_or_le a.value 0 with hneg | hnonneg
    · have hnone : assignment? (timeLetters ++ (a.tail ++ cs)) = none :=
        a.assignment?_of_neg hneg
      rw [if_neg fun h => absurd h.2 (Int.not_le.2 hneg)]
      have hletters : assignments (timeLetters ++ (a.tail ++ cs)) =
          assignments (['i', 'm', 'e'] ++ (a.tail ++ cs)) :=
        assignments_cons_of_none hnone
      rw [hletters, assignments_append_of_not_mem (by decide), hquiet]
      rfl
    · have hsome := a.assignment?_of_nonneg hnonneg hcs
      have hletters : assignments (timeLetters ++ (a.tail ++ cs)) =
          a.digits :: assignments (a.ending.text.toList ++ cs) :=
        assignments_cons_of_some hsome
      rw [if_pos ⟨hsuffix, hnonneg⟩, hletters,
        assignments_append_of_not_mem (a.ending.not_mem hblank)]
      rfl
  · rw [if_neg fun h => hsuffix h.1, assignments_append_of_not_suffix a.bounds_tail hplain
      (fun c hc => (a.name.solid c hc).1) hsuffix, hquiet]
    rfl

/-- What is found of the assignment is what the variable `time` gets: if it is that variable, its
value is a time that is not negative, and if it is not, its name ends otherwise or its value is no
such time. -/
structure IsFaithful : Prop where
  own : a.name.text = PlantState.timeVariable → 0 ≤ a.value ∧ Time.Fits a.value
  other : a.name.text ≠ PlantState.timeVariable → timeLetters <:+ a.name.text.toList →
    a.value < 0 ∨ ¬ Time.Fits a.value

end Assignment

/-! ## Whole traces -/

namespace TraceLine

/-- The text of a trace. -/
def trace (ls : List TraceLine) : String :=
  unlines (ls.map text)

theorem assignments_append (l : TraceLine) (hcs : Follows cs) :
    assignments (l.text.toList ++ cs) = l.found?.toList ++ assignments cs := by
  cases l with
  | assigns a => exact a.assignments_append hcs
  | remark text inline plain => exact assignments_append_of_plain plain hcs

/-- No line begins with an equality sign. -/
theorem unassigned_append (l : TraceLine) (hcs : Unassigned cs) :
    Unassigned (l.text.toList ++ cs) := by
  cases l with
  | remark text inline plain => exact hcs.append plain
  | assigns a =>
      have hplain : '=' ∉ a.indent.text.toList ++ a.name.text.toList := by
        rw [List.mem_append, not_or]
        exact ⟨a.indent.not_mem (by decide), fun h => (a.name.solid _ h).2 rfl⟩
      have hname : a.name.text.toList ≠ [] := by simpa using a.name.ne_empty
      have hsolid := endsSolid_of_forall hname fun c hc => (a.name.solid c hc).1
      have hfront : Unassigned (a.indent.text.toList ++ a.name.text.toList ++ (a.tail ++ cs)) :=
        unassigned_of_endsSolid hplain (hsolid.append_left _)
      change Unassigned (a.text.toList ++ cs)
      rw [a.toList_text]
      simpa only [List.append_assoc] using hfront

theorem toList_trace_cons (l : TraceLine) {ls : List TraceLine} (hne : ls ≠ []) :
    (trace (l :: ls)).toList = l.text.toList ++ '\n' :: (trace ls).toList :=
  toList_unlines_cons (by simpa using hne) l.text

theorem unassigned_trace (ls : List TraceLine) : Unassigned (trace ls).toList := by
  have hnil : Unassigned [] := by simp [Unassigned]
  induction ls with
  | nil => exact hnil
  | cons l ls ih =>
      by_cases hne : ls = []
      · subst hne
        have hline := l.unassigned_append hnil
        rwa [List.append_nil] at hline
      · rw [toList_trace_cons l hne]
        exact l.unassigned_append (Follows.line ih).unassigned

/-- The times that are looked for in a trace are found line by line. -/
theorem assignments_trace (ls : List TraceLine) :
    assignments (trace ls).toList = ls.filterMap found? := by
  induction ls with
  | nil => simp [trace, unlines, assignments]
  | cons l ls ih =>
      by_cases hne : ls = []
      · subst hne
        have hline := l.assignments_append .nothing
        rw [List.append_nil, assignments, List.append_nil] at hline
        refine hline.trans ?_
        rw [List.filterMap_cons]
        cases l.found? <;> rfl
      · rw [toList_trace_cons l hne, l.assignments_append (.line (unassigned_trace ls)),
          ← List.singleton_append, assignments_append_of_not_mem (by decide), ih,
          List.filterMap_cons]
        cases l.found? <;> rfl

/-- The time that the line states. -/
def read? : TraceLine → Option Time
  | assigns a =>
    if timeLetters <:+ a.name.text.toList ∧ 0 ≤ a.value ∧ Time.Fits a.value then some a.value
    else none
  | remark .. => none

theorem found?_bind_time? (l : TraceLine) : l.found?.bind time? = l.read? := by
  cases l with
  | remark => rfl
  | assigns a =>
      unfold found? read?
      by_cases hsuffix : timeLetters <:+ a.name.text.toList
      · rcases Int.lt_or_le a.value 0 with hneg | hnonneg
        · have hnot := Int.not_le.2 hneg
          simp [hnot]
        · have hvalue : ((a.value.natAbs : Nat) : Int) = a.value := Int.natAbs_of_nonneg hnonneg
          simp [hsuffix, hnonneg, time?, a.nat?_digits, hvalue]
      · simp [hsuffix]

theorem suffix_of_timeVariable {a : Assignment} (h : a.name.text = PlantState.timeVariable) :
    timeLetters <:+ a.name.text.toList := by
  rw [h]
  exact List.suffix_refl timeLetters

theorem isFaithful_iff (a : Assignment) :
    a.IsFaithful ↔ (assigns a).read? = (assigns a).valueOf? PlantState.timeVariable := by
  unfold read? valueOf?
  dsimp only
  by_cases hname : a.name.text = PlantState.timeVariable
  · rw [if_pos hname]
    constructor
    · intro h
      exact if_pos ⟨suffix_of_timeVariable hname, h.own hname⟩
    · intro h
      exact ⟨fun _ => (Option.ite_none_right_eq_some.1 h).1.2, fun hother => absurd hname hother⟩
  · rw [if_neg hname]
    constructor
    · intro h
      refine if_neg fun ⟨hsuffix, hnonneg, hfits⟩ => ?_
      rcases h.other hname hsuffix with hneg | hwide
      · exact absurd hnonneg (Int.not_le.2 hneg)
      · exact hwide hfits
    · intro h
      refine ⟨fun heq => absurd heq hname, fun _ hsuffix => ?_⟩
      by_contra hread
      rw [not_or, Int.not_lt, not_not] at hread
      rw [if_pos ⟨hsuffix, hread⟩] at h
      simp at h

/-- What a line states is not negative, and in range. -/
theorem nonneg_of_mem_read? {l : TraceLine} {time : Time} (h : l.read? = some time) :
    0 ≤ time ∧ Time.Fits time := by
  cases l with
  | remark => simp [read?] at h
  | assigns a =>
      obtain ⟨⟨-, hnonneg, hfits⟩, rfl⟩ : (timeLetters <:+ a.name.text.toList ∧ 0 ≤ a.value ∧
          Time.Fits a.value) ∧ a.value = time := by simpa [read?] using h
      exact ⟨hnonneg, hfits⟩

theorem read?_of_valueOf? {l : TraceLine} {value : Int}
    (h : l.valueOf? PlantState.timeVariable = some value) (hnonneg : 0 ≤ value)
    (hfits : Time.Fits value) : l.read? = some value := by
  cases l with
  | remark => simp [valueOf?] at h
  | assigns a =>
      obtain ⟨hname, rfl⟩ : a.name.text = PlantState.timeVariable ∧ a.value = value := by
        simpa [valueOf?] using h
      exact if_pos ⟨suffix_of_timeVariable hname, hnonneg, hfits⟩

/-- Two ways to read lines, of which one reads all that the other does, read the same of a list of
lines only if they read the same of each. -/
theorem forall_eq_of_filterMap_eq {f g : TraceLine → Option Int} {ls : List TraceLine}
    (hle : ∀ l ∈ ls, ∀ v, g l = some v → f l = some v) (h : ls.filterMap f = ls.filterMap g) :
    ∀ l ∈ ls, f l = g l := by
  have hlength {ls : List TraceLine} (hle : ∀ l ∈ ls, ∀ v, g l = some v → f l = some v) :
      (ls.filterMap g).length ≤ (ls.filterMap f).length := by
    rw [List.length_filterMap_eq_countP, List.length_filterMap_eq_countP]
    refine List.countP_mono_left fun l hl hg => ?_
    obtain ⟨v, hv⟩ := Option.isSome_iff_exists.1 hg
    exact Option.isSome_iff_exists.2 ⟨v, hle l hl v hv⟩
  induction ls with
  | nil => simp
  | cons l ls ih =>
      have hrest : ∀ l' ∈ ls, ∀ v, g l' = some v → f l' = some v :=
        fun l' hl' => hle l' (List.mem_cons_of_mem _ hl')
      have hhead : f l = g l := by
        cases hg : g l with
        | some v => exact hle l List.mem_cons_self v hg
        | none =>
            cases hf : f l with
            | none => rfl
            | some v =>
                -- the other list would be too short
                rw [List.filterMap_cons_some hf, List.filterMap_cons_none hg] at h
                have hshort := hlength hrest
                rw [← h, List.length_cons] at hshort
                omega
      rw [List.filterMap_cons, List.filterMap_cons, hhead] at h
      have htail : ls.filterMap f = ls.filterMap g := by
        cases hg : g l with
        | none => simpa [hg] using h
        | some v => simpa [hg] using h
      exact List.forall_mem_cons.2 ⟨hhead, ih hrest htail⟩

end TraceLine

end Assigning

/-- The times of a trace are the values that are assigned to names that end in the letters, except
those that are negative or out of range. They are the values of the variable `time`, in order, just
if every assignment is faithful. -/
theorem completionTimes_trace (ls : List TraceLine) :
    completionTimes (TraceLine.trace ls) = ls.filterMap TraceLine.read? ∧
      finalTime (TraceLine.trace ls) = (ls.filterMap TraceLine.read?).max? ∧
        (completionTimes (TraceLine.trace ls) =
            ls.filterMap (TraceLine.valueOf? PlantState.timeVariable) ↔
          ∀ a, .assigns a ∈ ls → a.IsFaithful) := by
  have htimes : completionTimes (TraceLine.trace ls) = ls.filterMap TraceLine.read? := by
    rw [completionTimes, TraceLine.assignments_trace, List.filterMap_filterMap]
    simp only [TraceLine.found?_bind_time?]
  refine ⟨htimes, congrArg List.max? htimes, ?_⟩
  rw [htimes]
  constructor
  · intro h a ha
    rw [TraceLine.isFaithful_iff]
    refine TraceLine.forall_eq_of_filterMap_eq (fun l hl v hv => ?_) h _ ha
    -- all values of the variable are among the times that are stated
    have hmem : v ∈ ls.filterMap TraceLine.read? := by
      rw [h]
      exact List.mem_filterMap.2 ⟨l, hl, hv⟩
    obtain ⟨l', -, hread⟩ := List.mem_filterMap.1 hmem
    obtain ⟨hnonneg, hfits⟩ := TraceLine.nonneg_of_mem_read? hread
    exact TraceLine.read?_of_valueOf? hv hnonneg hfits
  · intro h
    refine List.filterMap_congr fun l hl => ?_
    cases l with
    | remark => rfl
    | assigns a => exact (TraceLine.isFaithful_iff a).1 (h a hl)

/-- A variable whose name only ends in the letters passes for the time, and a sign hides a time. -/
example : completionTimes "    uptime = 90\n    time = 3\n" = [90, 3] ∧
    completionTimes "    time = -3\n" = [] := by
  decide +kernel

end Output

end Punctual
