import Punctual.Model.Section

/-!
# Model fragments

A fragment is a model text cut into parts, line by line. The lines of the module `main`, and those
before any module header, form sections. Every other module is kept as it is. A line that belongs
to no section and no other module is dropped, with a warning if it holds more than blanks and a
comment.
-/

namespace Punctual

/-- The sections of the main module and the texts of the other modules, in order. -/
structure Fragment where
  sections : List Section
  modules : List (String × String)
  deriving DecidableEq, Repr

namespace Fragment

/-- A character ends the first word of a line. -/
def endsWord (c : Char) : Bool :=
  Text.isBlank c || c == '('

/-- The first word of some characters. -/
def firstWord (cs : List Char) : List Char :=
  cs.takeWhile fun c => !endsWord c

/-- What the first word of a line makes of it. -/
inductive LineKind
  /-- The header of a module. -/
  | header (moduleName : String)
  /-- A keyword that opens a section, and the text behind it. -/
  | opening (kind : SectionKind) (keyword rest : String)
  /-- Any other line. -/
  | plain
  deriving DecidableEq, Repr

/-- The word that opens the header of a module. -/
def moduleKeyword : String := "MODULE"

/-- The kind of a line. -/
def lineKind (line : String) : LineKind :=
  let trimmed := (Text.trimStart line).toList
  let word := String.ofList (firstWord trimmed)
  let rest := Text.trim (.ofList (trimmed.drop word.toList.length))
  if word = moduleKeyword then .header (.ofList (firstWord rest.toList))
  else
    match SectionKind.ofKeyword? word with
    | some kind => .opening kind word rest
    | none => .plain

/-- What the next line may belong to. -/
inductive Current
  | outside
  | inSection (s : Section)
  /-- A module other than `main`, with its lines so far. -/
  | inModule (name : String) (lines : List String)
  deriving DecidableEq, Repr

/-- A text that is being cut into parts. -/
structure Progress where
  done : Fragment
  current : Current
  warnings : List String
  deriving DecidableEq, Repr

/-- The parts so far, with the current one closed. -/
def Progress.closed (p : Progress) : Fragment :=
  match p.current with
  | .outside => p.done
  | .inSection s => { p.done with sections := p.done.sections ++ [s] }
  | .inModule name lines =>
    { p.done with
      modules := p.done.modules ++ [(name, Text.trimEnd (Text.unlines lines))] }

/-- The warning about a line outside of all parts, if it holds text. -/
def outsideWarning (line : String) : List String :=
  if Text.trim (stripComment line) = "" then []
  else ["Ignoring model text outside of any section: " ++ Text.trim line]

/-- The module whose sections are merged. -/
def mainModule : String := "main"

/-- Takes one more line. -/
def Progress.take (p : Progress) (line : String) : Progress :=
  match lineKind line, p.current with
  | .header name, _ =>
    { p with
      done := p.closed
      current := if name = mainModule then .outside else .inModule name [line] }
  | _, .inModule name lines => { p with current := .inModule name (lines ++ [line]) }
  | .opening kind keyword rest, _ =>
    { p with
      done := p.closed
      current := .inSection ⟨kind, keyword, if rest = "" then [] else [rest]⟩ }
  | .plain, .inSection s => { p with current := .inSection { s with body := s.body ++ [line] } }
  | .plain, .outside => { p with warnings := p.warnings ++ outsideWarning line }

/-- Before the first line. -/
def Progress.start : Progress :=
  ⟨⟨[], []⟩, .outside, []⟩

/-- Cuts lines into parts. -/
def ofLines (lines : List String) : Progress :=
  lines.foldl Progress.take .start

/-- The parts of a model text. -/
def parse (text : String) : Fragment :=
  (ofLines (Text.lines text)).closed

/-- The warnings about lines of a model text that belong to no part. -/
def warnings (text : String) : List String :=
  (ofLines (Text.lines text)).warnings

end Fragment

end Punctual
