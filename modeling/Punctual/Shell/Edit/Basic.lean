import Punctual.Shell.Expression

/-!
# Edits

An edit is a list of commands that work on the lines of an input in turn. A command is for lines at
an address, which is a number, the last line, or what an expression matches, or for the lines from
one address to another.
-/

namespace Punctual.Shell

/-- Which line an address names. An expression that is missing is the last one that was used. -/
inductive Address
  | number (n : Nat)
  | last
  | matching (r : Option Regex)
  /-- Every line of a number of lines, from the first one on. -/
  | stepped (first step : Nat)

/-- Where a range of lines ends. -/
inductive RangeEnd
  | at (a : Address)
  /-- So many lines behind the first one. -/
  | behind (count : Nat)
  /-- At the next line whose number is a multiple. -/
  | multiple (n : Nat)

/-- The lines that a command is for: all, one address, or from one address to another. -/
inductive Lines
  | all
  | at (a : Address)
  /-- The range may end on the line where it begins if it begins before the first line. -/
  | between (a : Address) (e : RangeEnd)

/-- How letters of a replacement are turned. -/
inductive Turn
  | upper
  | lower
  | keep
  /-- Only the next letter is turned. -/
  | nextUpper
  | nextLower
  deriving DecidableEq, Repr

/-- A piece of a replacement. -/
inductive NewPiece
  | plain (c : Char)
  /-- The octets that a group matched; group zero is the whole match. -/
  | group (n : Nat)
  | turn (t : Turn)
  deriving DecidableEq, Repr

/-- A replacement: it is made for the match number `first` and, if `onwards`, for all later ones. -/
structure Replacement where
  old : Option Regex
  new : List NewPiece
  first : Nat
  onwards : Bool
  /-- The line is printed if something was replaced. -/
  prints : Bool
  /-- The line is written to a file if something was replaced. -/
  target : Option Octets

/-- What a command does. The line that is edited may hold more lines than one; the store keeps
octets from line to line. -/
inductive Change
  | replace (r : Replacement)
  | translate (pairs : List (Char × Char))
  | print
  | printFirst
  | drop
  /-- Drops the first line, and starts again with the rest. -/
  | dropFirst
  | clear
  | quit (prints : Bool) (status : Nat)
  | number
  | name
  /-- Shows all octets by characters, in lines of a width. -/
  | show (width : Nat)
  | next
  | join
  | store
  | storeMore
  | fetch
  | fetchMore
  | exchange
  | after (text : Octets)
  | before (text : Octets)
  | instead (text : Octets)
  | read (path : Octets)
  | write (path : Octets)
  | writeFirst (path : Octets)
  | label (name : Octets)
  | jump (label : Octets)
  /-- Jumps if something was replaced, or if nothing was, since a line was read or the last such
  jump. -/
  | jumpIf (replaced : Bool) (label : Octets)
  | opening
  | closing
  | nothing

/-- A command of an edit. -/
structure EditCommand where
  lines : Lines
  inverted : Bool
  change : Change

end Punctual.Shell
