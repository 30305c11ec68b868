/-!
# Lines of a text

A text is cut at its line feeds. A line feed at the very end opens no further line, and a carriage
return directly before a line feed belongs to the line break.
-/

namespace Punctual.Text

/-- The pieces between the line feeds of a list of characters; there is always at least one. -/
def pieces : List Char → List (List Char)
  | [] => [[]]
  | c :: cs =>
    if c = '\n' then [] :: pieces cs
    else match pieces cs with
      | [] => [[c]]
      | p :: ps => (c :: p) :: ps

/-- A line without the carriage return that ends it. -/
def dropCarriageReturn (cs : List Char) : List Char :=
  if cs.getLast? = some '\r' then cs.dropLast else cs

/-- The lines among the pieces: each piece but the last was ended by a line feed, and the last one
is a line only if it holds a character. -/
def linesOfPieces : List (List Char) → List (List Char)
  | [] => []
  | [last] => if last.isEmpty then [] else [last]
  | p :: q :: ps => dropCarriageReturn p :: linesOfPieces (q :: ps)

/-- The lines of a text. -/
def lines (s : String) : List String :=
  (linesOfPieces (pieces s.toList)).map .ofList

/-- The lines joined by line feeds, with none at the end. -/
def unlines (ls : List String) : String :=
  "\n".intercalate ls

/-- The lines, each ended by a line feed. -/
def linesEnded (ls : List String) : String :=
  String.join (ls.map (· ++ "\n"))

end Punctual.Text
