import Punctual.PlantState
import Punctual.Proofs.Model.Keywords
import Punctual.Proofs.Specification.Formula

/-!
# Initial states as model texts

A plant state becomes a line for each variable that constrains the initial state of a model. The
names of the variables come from outside and may hold any character, while a model text is cut at
its line feeds. As long as no name holds one, each line is read back as a section of its own and
nothing else is (`parse_initText`). A blank in front of a name is lost all the same, since it stands
directly behind the keyword; `ReadsBack` says which constraints are read back as they were written,
and there are no others (`parse_initText_iff`).
-/

namespace Punctual.PlantState

open Text Fragment

variable {name : String} {v : StateValue}

/-! ## Constraints -/

/-- The constraint without its keyword. -/
def condition (name : String) : StateValue → String
  | .bool true => name ++ ";"
  | .bool false => "!" ++ name ++ ";"
  | .int n => name ++ " = " ++ toString n ++ ";"

/-- A section that constrains the initial state. -/
def initSection (body : String) : Section :=
  ⟨.init, "INIT", [body]⟩

theorem constraint_eq (name : String) (v : StateValue) :
    constraint name v = "INIT" ++ " " ++ condition name v := by
  have hkeyword : "INIT" ++ " " = "INIT " := by decide
  have hnegation : "INIT " ++ "!" = "INIT !" := by decide
  rw [hkeyword]
  match v with
  | .bool true => rw [constraint, condition, String.append_assoc]
  | .bool false => rw [constraint, condition, ← hnegation]; simp only [String.append_assoc]
  | .int n => rw [constraint, condition]; simp only [String.append_assoc]

/-- A condition ends with a semicolon. -/
theorem endsSolid_condition (name : String) (v : StateValue) :
    EndsSolid (condition name v).toList := by
  have hended : ∃ front, condition name v = front ++ ";" := by
    match v with
    | .bool true => exact ⟨_, rfl⟩
    | .bool false => exact ⟨_, rfl⟩
    | .int n => exact ⟨_, rfl⟩
  obtain ⟨front, hfront⟩ := hended
  rw [hfront, String.toList_append]
  exact (endsSolid_singleton (by decide)).append_left _

/-- A condition is one line just if the name is. -/
theorem isLine_condition_iff : IsLine (condition name v) ↔ IsLine name := by
  constructor
  · intro h hname
    refine h ?_
    match v with
    | .bool true => simp [condition, hname]
    | .bool false => simp [condition, hname]
    | .int n => simp [condition, hname]
  · intro hname
    have hend : IsLine ";" := by decide
    match v with
    | .bool true => exact hname.append hend
    | .bool false =>
        have hnegation : IsLine "!" := by decide
        exact (hnegation.append hname).append hend
    | .int n =>
        have hequals : IsLine " = " := by decide
        exact ((hname.append hequals).append (isLine_toString_time n)).append hend

/-- The constraint of a variable is read back as it was written: the name is one line, and no blank
stands directly behind the keyword. -/
structure ReadsBack (name : String) (v : StateValue) : Prop where
  isLine : IsLine name
  head : v ≠ .bool false → ∀ c ∈ name.toList.head?, isBlank c = false
  ne_empty : ∀ n, v = .int n → name ≠ ""

/-- A condition begins with no blank just if none comes to stand behind the keyword. -/
theorem head?_condition_iff :
    (∀ c ∈ (condition name v).toList.head?, isBlank c = false) ↔
      (v ≠ .bool false → ∀ c ∈ name.toList.head?, isBlank c = false) ∧
        ∀ n, v = .int n → name ≠ "" := by
  have hempty : name = "" ↔ name.toList = [] := String.toList_eq_nil_iff.symm
  have hsemicolon : isBlank ';' = false := by decide
  have hnegation : isBlank '!' = false := by decide
  have hspace : isBlank ' ' = true := by decide
  match v with
  | .bool true => cases hname : name.toList <;> simp [condition, hname, hsemicolon]
  | .bool false => simp [condition, hnegation]
  | .int n => cases hname : name.toList <;> simp [condition, hname, hspace, hempty]

/-- Which constraints trimming leaves as they are. -/
theorem readsBack_iff :
    ReadsBack name v ↔ IsLine name ∧ trim (condition name v) = condition name v := by
  rw [(endsSolid_condition name v).trim_eq_self_iff, head?_condition_iff]
  exact ⟨fun h => ⟨h.isLine, h.head, h.ne_empty⟩, fun h => ⟨h.1, h.2.1, h.2.2⟩⟩

/-! ## Reading back -/

theorem initText_eq (s : PlantState) :
    s.initText = linesEnded (s.values.map fun e => constraint e.1 e.2) := by
  rw [initText, linesEnded, List.map_map]
  rfl

/-- Constraints that stand on one line each are read as one section each. -/
theorem ofLines_constraints (es : List (String × StateValue)) :
    (ofLines (es.map fun e => constraint e.1 e.2)).closed =
        ⟨es.map fun e => initSection (trim (condition e.1 e.2)), []⟩ ∧
      (ofLines (es.map fun e => constraint e.1 e.2)).warnings = [] ∧
      (ofLines (es.map fun e => constraint e.1 e.2)).current.isInside = false := by
  induction es using List.reverseRecOn with
  | nil => exact ⟨rfl, rfl, rfl⟩
  | append_singleton es e ih =>
      obtain ⟨hclosed, hwarnings, hinside⟩ := ih
      have hsolid := (endsSolid_condition e.1 e.2).trim_ne_empty
      have hkind : lineKind (constraint e.1 e.2) =
          .opening .init "INIT" (trim (condition e.1 e.2)) := by
        rw [constraint_eq]
        exact lineKind_opening_trim rfl _
      rw [List.map_append, List.map_singleton, ofLines_concat, take_opening hkind hinside,
        if_neg hsolid]
      refine ⟨?_, hwarnings, rfl⟩
      rw [Progress.closed, hclosed, List.map_append]
      rfl

/-- If no name holds a line feed, a plant state is read back as one constraint of the initial state
for each variable, in order, and as nothing else. -/
theorem parse_initText {s : PlantState} (h : ∀ e ∈ s.values, IsLine e.1) :
    parse s.initText = ⟨s.values.map fun e => initSection (trim (condition e.1 e.2)), []⟩ ∧
      warnings s.initText = [] := by
  have hlines : lines s.initText = s.values.map fun e => constraint e.1 e.2 := by
    rw [initText_eq]
    refine lines_linesEnded ?_ ?_
    · intro l hl
      obtain ⟨e, he, rfl⟩ := List.mem_map.1 hl
      have hkeyword : IsLine ("INIT" ++ " ") := by decide
      rw [constraint_eq]
      exact hkeyword.append (isLine_condition_iff.2 (h e he))
    · intro l hl
      obtain ⟨e, -, rfl⟩ := List.mem_map.1 hl
      rw [constraint_eq, String.toList_append]
      exact ((endsSolid_condition e.1 e.2).append_left _).getLast?_ne (by decide)
  obtain ⟨hclosed, hwarnings, -⟩ := ofLines_constraints s.values
  rw [parse, warnings, hlines]
  exact ⟨hclosed, hwarnings⟩

/-- A plant state is read back as it was written, one constraint of the initial state for each
variable, in order, and nothing else, just if no name holds a line feed and no blank stands directly
behind the keyword. Without line feeds nothing but such blanks is lost. -/
theorem parse_initText_iff (s : PlantState) :
    ((parse s.initText = ⟨s.values.map fun e => initSection (condition e.1 e.2), []⟩ ∧
        warnings s.initText = []) ↔ ∀ e ∈ s.values, ReadsBack e.1 e.2) ∧
      ((∀ e ∈ s.values, IsLine e.1) →
        parse s.initText = ⟨s.values.map fun e => initSection (trim (condition e.1 e.2)), []⟩ ∧
          warnings s.initText = []) := by
  refine ⟨⟨?_, ?_⟩, parse_initText⟩
  · rintro ⟨hparse, -⟩
    have hline : ∀ e ∈ s.values, IsLine e.1 := by
      intro e he
      have hsection : initSection (condition e.1 e.2) ∈ (parse s.initText).sections := by
        rw [hparse]
        exact List.mem_map_of_mem he
      exact isLine_condition_iff.1 (not_mem_of_mem_body hsection List.mem_cons_self)
    have hsections := (Fragment.mk.inj (hparse.symm.trans (parse_initText hline).1)).1
    intro e he
    have hsame := List.map_inj_left.1 hsections e he
    have hcondition := (List.cons.inj (Section.mk.inj hsame).2.2).1
    exact readsBack_iff.2 ⟨hline e he, hcondition.symm⟩
  · intro h
    have hline : ∀ e ∈ s.values, IsLine e.1 := fun e he => (h e he).isLine
    obtain ⟨hparse, hwarnings⟩ := parse_initText hline
    refine ⟨?_, hwarnings⟩
    rw [hparse, List.map_congr_left]
    intro e he
    rw [(readsBack_iff.1 (h e he)).2]

/-- A plant state with blanks inside a name. -/
def spaced : PlantState :=
  ⟨3, .null, [("time", .int 3), ("pump on", .bool true), (" valve", .bool false)]⟩

theorem parse_initText_iff_spaced :
    (∀ e ∈ spaced.values, ReadsBack e.1 e.2) ∧ (∀ e ∈ spaced.values, IsLine e.1) ∧
      parse spaced.initText =
        ⟨[initSection "time = 3;", initSection "pump on;", initSection "! valve;"], []⟩ ∧
      warnings spaced.initText = [] := by
  have hline : ∀ e ∈ spaced.values, IsLine e.1 := by decide
  have htrimmed : ∀ e ∈ spaced.values, trim (condition e.1 e.2) = condition e.1 e.2 := by
    decide +kernel
  have hreads : ∀ e ∈ spaced.values, ReadsBack e.1 e.2 := fun e he =>
    readsBack_iff.2 ⟨hline e he, htrimmed e he⟩
  obtain ⟨hparse, hwarnings⟩ := (parse_initText_iff spaced).1.2 hreads
  refine ⟨hreads, hline, hparse.trans ?_, hwarnings⟩
  decide +kernel

/-- A line feed in a name opens a section that declares a variable. -/
example :
    parse (initText ⟨0, .null, [("time", .int 0), ("a\nVAR x : boolean", .bool true)]⟩) =
      ⟨[initSection "time = 0;", initSection "a", ⟨.var, "VAR", ["x : boolean;"]⟩], []⟩ := by
  decide +kernel

end Punctual.PlantState
