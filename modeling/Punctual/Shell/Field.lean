import Punctual.Files.Tree
import Punctual.Shell.Glob

/-!
# Fields

The expansion of a word is a list of bits. What was quoted, or written in the script itself, stays
together; values of parameters are cut at the octets of the separators. A field that is a pattern
becomes the names that it describes, if there are any.
-/

namespace Punctual.Shell

/-- A bit of an expanded word. -/
inductive Bit
  /-- An octet of the word itself. -/
  | fixed (c : Char) (isQuoted : Bool)
  /-- An octet of a value outside of quotes. -/
  | loose (c : Char)
  /-- Quotes, which make a field even if they hold nothing. -/
  | quotes
  /-- The end of a field. -/
  | cut
  deriving DecidableEq, Repr

namespace Bit

/-- The octet of a bit, and whether it is quoted. -/
def mark? : Bit → Option Glob.Marked
  | .fixed c isQuoted => some (c, isQuoted)
  | .loose c => some (c, false)
  | .quotes => none
  | .cut => some (' ', true)

def quoted (cs : Octets) : List Bit :=
  .quotes :: cs.map (.fixed · true)

def ofValue (isQuoted : Bool) (cs : Octets) : List Bit :=
  if isQuoted then quoted cs else cs.map .loose

/-- A bit of a word that stands in place of a value outside of quotes. -/
def loosened : Bit → Bit
  | .fixed c false => .loose c
  | b => b

/-- The bits of several values, each of which ends a field. -/
def ofValues (isQuoted : Bool) (values : List Octets) : List Bit :=
  List.intercalate [.cut] (values.map (ofValue isQuoted))

def octets (bs : List Bit) : Octets :=
  bs.filterMap fun b => b.mark?.map Prod.fst

def pattern (bs : List Bit) : List Glob :=
  Glob.ofWord (bs.filterMap mark?)

end Bit

/-- A field: octets, and which of them are quoted. -/
abbrev Field := List Glob.Marked

namespace Field

def defaultSeparators : Octets := [' ', '\t', '\n']

/-- A cut of bits into fields: the fields so far, the open field, both from the last to the first,
and whether a blank ended the last field, so that a separator behind it ends no further one. -/
structure Cutting where
  done : List Field
  current : Option Field
  afterBlank : Bool

def Cutting.start : Cutting :=
  ⟨[], none, false⟩

def Cutting.push (x : Glob.Marked) (s : Cutting) : Cutting :=
  { s with current := some (x :: s.current.getD []), afterBlank := false }

def Cutting.close (s : Cutting) (blank : Bool) : Cutting :=
  match s.current with
  | some f => ⟨f.reverse :: s.done, none, blank⟩
  | none => s

def Cutting.step (separators : Octets) (s : Cutting) : Bit → Cutting
  | .fixed c isQuoted => s.push (c, isQuoted)
  | .quotes => { s with current := some (s.current.getD []), afterBlank := false }
  | .cut => s.close false
  | .loose c =>
    if !(c ∈ separators) then s.push (c, false)
    else if isLayout c then s.close true
    else if s.current.isSome then s.close false
    else if s.afterBlank then { s with afterBlank := false }
    else { s with done := [] :: s.done }

def cut (separators : Octets) (bs : List Bit) : List Field :=
  ((bs.foldl (Cutting.step separators) .start).close false).done.reverse

def octets (f : Field) : Octets :=
  f.map Prod.fst

def parts : Field → List Field
  | [] => [[]]
  | (c, isQuoted) :: f =>
    if c = '/' then [] :: parts f
    else match parts f with
      | [] => [[(c, isQuoted)]]
      | p :: ps => ((c, isQuoted) :: p) :: ps

def namesIn (tree : Tree) (place : Place) : List String :=
  (tree.within place).filterMap List.getLast?

/-- Names that a part of a pattern describes; those with a point in front only if the pattern has
one too. -/
def described (tree : Tree) (place : Place) (part : Field) : List String :=
  let pattern := Glob.ofWord part
  if !Glob.isActive pattern then [Octets.toText (octets part)]
  else
    let hidden := part.head?.any fun (c, _) => c == '.'
    let names := (namesIn tree place).filter fun n =>
      Glob.describes pattern (Octets.ofText n) && (hidden || n.toList.head? != some '.')
    names.mergeSort fun a b => !Octets.precedes (Octets.ofText b) (Octets.ofText a)

/-- The paths that the parts of a pattern describe, behind the path of a place. -/
def paths (tree : Tree) (path : String) (place : Place) : List Field → List String
  | [] => if (tree.node? place).isSome then [path] else []
  | part :: rest =>
    (described tree place part).flatMap fun name =>
      match tree.step place name with
      | .ok next => paths tree (path ++ name ++ if rest.isEmpty then "" else "/") next rest
      | .error _ => []

/-- The names, seen from a directory, that a field describes, or the field itself if it is no
pattern or describes nothing. -/
def names (tree : Tree) (here : Place) (f : Field) : List Octets :=
  if !Glob.isActive (Glob.ofWord f) then [octets f]
  else
    let isAbsolute := f.head?.any fun (c, _) => c == '/'
    match paths tree "" (if isAbsolute then Place.root else here) (parts f) with
    | [] => [octets f]
    | ps => ps.map Octets.ofText

end Field

end Punctual.Shell
