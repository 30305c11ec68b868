import Punctual.Text.Blank
import Punctual.Text.Lines
import Punctual.Text.Search

/-!
# Sections of models

The main module of a model consists of sections. A keyword opens a section and tells its kind; the
lines up to the next keyword are its body.
-/

namespace Punctual

/-- The kinds of sections, in the order in which a model shows them. -/
inductive SectionKind
  | var
  | ivar
  | frozenVar
  | define
  | assign
  | init
  | invar
  | trans
  | fairness
  | spec
  deriving DecidableEq, Repr

namespace SectionKind

/-- All kinds in order. -/
def all : List SectionKind :=
  [.var, .ivar, .frozenVar, .define, .assign, .init, .invar, .trans, .fairness, .spec]

theorem mem_all (k : SectionKind) : k ∈ all := by
  cases k <;> decide

/-- The kind of section that a keyword opens. -/
def ofKeyword? (word : String) : Option SectionKind :=
  match word with
  | "VAR" => some .var
  | "IVAR" => some .ivar
  | "FROZENVAR" => some .frozenVar
  | "DEFINE" => some .define
  | "ASSIGN" => some .assign
  | "INIT" => some .init
  | "INVAR" => some .invar
  | "TRANS" => some .trans
  | "FAIRNESS" | "JUSTICE" | "COMPASSION" => some .fairness
  | "SPEC" | "CTLSPEC" | "LTLSPEC" | "INVARSPEC" | "PSLSPEC" | "COMPUTE" => some .spec
  | _ => none

/-- The keyword under which sections of a kind are gathered. -/
def keyword : SectionKind → String
  | .var => "VAR"
  | .ivar => "IVAR"
  | .frozenVar => "FROZENVAR"
  | .define => "DEFINE"
  | .assign => "ASSIGN"
  | .init => "INIT"
  | .invar => "INVAR"
  | .trans => "TRANS"
  | .fairness => "FAIRNESS"
  | .spec => "SPEC"

/-- Every kind is opened by its own keyword. -/
theorem ofKeyword?_keyword (k : SectionKind) : ofKeyword? k.keyword = some k := by
  cases k <;> rfl

/-- The section declares variables. -/
def isDeclaration : SectionKind → Bool
  | .var | .ivar | .frozenVar => true
  | _ => false

/-- The section constrains the runs of the model. -/
def isConstraint : SectionKind → Bool
  | .init | .invar | .trans | .fairness => true
  | _ => false

/-- Sections of the kind are shown together under one keyword. -/
def isGathered : SectionKind → Bool
  | .var | .ivar | .frozenVar | .define | .assign => true
  | _ => false

end SectionKind

/-- A section: its kind, the keyword that opened it, and the lines of its body. -/
structure Section where
  kind : SectionKind
  keyword : String
  body : List String
  deriving DecidableEq, Repr

/-- The characters of a line before a comment. -/
def beforeComment : List Char → List Char
  | [] => []
  | [c] => [c]
  | c :: d :: cs => if c = '-' ∧ d = '-' then [] else c :: beforeComment (d :: cs)

/-- The line without a comment. -/
def stripComment (line : String) : String :=
  .ofList (beforeComment line.toList)

/-- The lines without blanks at their ends, and without those that hold nothing else. -/
def trimmedLines (ls : List String) : List String :=
  (ls.map Text.trim).filter (· ≠ "")

namespace Section

/-- The body without comments and blank lines. -/
def content (s : Section) : String :=
  Text.unlines (trimmedLines (s.body.map stripComment))

/-- The section as model text: a body of one line stands behind the keyword, a longer one on lines
of its own. -/
def text (s : Section) : String :=
  match trimmedLines s.body with
  | [] => s.keyword
  | [line] => s.keyword ++ " " ++ line
  | lines => s.keyword ++ String.join (lines.map ("\n    " ++ ·))

end Section

end Punctual
