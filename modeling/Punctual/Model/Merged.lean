import Punctual.Log
import Punctual.Model.Declaration
import Punctual.Model.Fragment

/-!
# Merged models

Fragments are merged into one model. Their declarations become one section for each variable that
was not declared before; all other sections are taken over in order. Of several modules with one
name, the first is kept.

A merged model is written with its sections grouped by kind. Main parts: `Merge` holds what has
been merged, `mergeFragments` merges, `Model.text` writes.
-/

namespace Punctual

/-- The sections of the main module and the texts of the other modules. -/
structure Model where
  sections : List Section
  modules : List (String × String)
  deriving DecidableEq, Repr

namespace Model

/-- The model without any section. -/
def empty : Model :=
  ⟨[], []⟩

/-- The model with one more section. -/
def addSection (m : Model) (s : Section) : Model :=
  { m with sections := m.sections ++ [s] }

/-- The model with one more module, unless it has one of that name. -/
def addModule (m : Model) (entry : String × String) : Model :=
  if (find? entry.1 m.modules).isSome then m else { m with modules := m.modules ++ [entry] }

/-- Sections of one kind as model text. -/
def groupText (kind : SectionKind) (sections : List Section) : String :=
  if kind.isGathered then
    kind.keyword ++ "\n" ++
      String.join ((trimmedLines (sections.flatMap (·.body))).map ("    " ++ · ++ "\n"))
  else Text.linesEnded (sections.map Section.text)

/-- The sections of a kind, in order. -/
def ofKind (kind : SectionKind) (sections : List Section) : List Section :=
  sections.filter (·.kind = kind)

/-- The sections as model text, grouped by kind; kinds without sections are left out. -/
def sectionsText (sections : List Section) : String :=
  String.join (SectionKind.all.map fun kind =>
    match ofKind kind sections with
    | [] => ""
    | group => groupText kind group)

/-- The model as text: the main module, then the others, each behind an empty line. -/
def text (m : Model) : String :=
  "MODULE main\n" ++ sectionsText m.sections ++
    String.join (m.modules.map fun (_, text) => "\n" ++ text ++ "\n")

end Model

/-- A model that is being merged, and the variables declared so far. -/
structure Merge where
  context : Context
  model : Model
  warnings : List String
  deriving DecidableEq, Repr

/-- An action on a merge that may fail; what it has merged before remains. -/
abbrev Merging := EStateM CombineError Merge

namespace Merge

/-- Nothing is merged yet. -/
def start (context : Context) : Merge :=
  ⟨context, .empty, []⟩

/-- The section that declares one variable. -/
def declarationSection (kind : SectionKind) (name type : String) : Section :=
  ⟨kind, kind.keyword, [name ++ " : " ++ type ++ ";"]⟩

/-- Declares a variable unless it is declared already. -/
def declare (m : Merge) (kind : SectionKind) (name type : String) : Merge :=
  match m.context.typeOf? name with
  | some kept => { m with warnings := m.warnings ++ Context.conflictWarning name kept type }
  | none =>
    { m with
      context := m.context.add kind name type
      model := m.model.addSection (declarationSection kind name type) }

end Merge

/-- The pieces between the semicolons of a text. -/
def semicolonPieces : List Char → List (List Char)
  | [] => [[]]
  | c :: cs =>
    if c = ';' then [] :: semicolonPieces cs
    else match semicolonPieces cs with
      | [] => [[c]]
      | p :: ps => (c :: p) :: ps

/-- The declarations in the body of a section. -/
def Section.declarations (s : Section) : List String :=
  ((semicolonPieces s.content.toList).map .ofList).filter fun d => !Text.isBlankText d

/-- Merges one declaration. -/
def mergeDeclaration (kind : SectionKind) (declaration : String) : Merging Unit := do
  match parseDeclaration declaration with
  | .error e => throw e
  | .ok (name, type) => modify (·.declare kind name type)

/-- Merges a section. -/
def mergeSection (s : Section) : Merging Unit :=
  if s.kind.isDeclaration then s.declarations.forM (mergeDeclaration s.kind)
  else modify fun m => { m with model := m.model.addSection s }

/-- Merges the sections of a fragment, and then its modules. -/
def mergeFragment (f : Fragment) : Merging Unit := do
  f.sections.forM mergeSection
  modify fun m => { m with model := f.modules.foldl Model.addModule m.model }

/-- Merges fragments in order. -/
def mergeFragments (fs : List Fragment) : Merging Unit :=
  fs.forM mergeFragment

end Punctual
