import Punctual.Shell.Octets

/-!
# Patterns of names

A pattern describes texts: a star stands for any run of octets, a question mark for one octet, and
brackets for one octet of a set. Quoted octets stand for themselves.
-/

namespace Punctual.Shell

/-- A set of octets: ranges, or all octets outside of them. -/
structure OctetSet where
  negated : Bool
  ranges : List (Char × Char)
  deriving DecidableEq, Repr

namespace OctetSet

def holds (s : OctetSet) (c : Char) : Bool :=
  s.negated != s.ranges.any fun (low, high) => low ≤ c && c ≤ high

def ofClass? (name : String) : Option (List (Char × Char)) :=
  match name with
  | "digit" => some [('0', '9')]
  | "lower" => some [('a', 'z')]
  | "upper" => some [('A', 'Z')]
  | "alpha" => some [('a', 'z'), ('A', 'Z')]
  | "alnum" => some [('0', '9'), ('a', 'z'), ('A', 'Z')]
  | "xdigit" => some [('0', '9'), ('a', 'f'), ('A', 'F')]
  | "blank" => some [(' ', ' '), ('\t', '\t')]
  | "space" => some [(' ', ' '), ('\t', '\r')]
  | "punct" => some [('!', '/'), (':', '@'), ('[', Char.ofNat 96), ('\x7b', '~')]
  | "print" => some [(' ', '~')]
  | "graph" => some [('!', '~')]
  | "cntrl" => some [('\x00', '\x1F'), ('\x7F', '\x7F')]
  | _ => none

/-- The name of a class between colons, and the octets behind its bracket. -/
def className? : Octets → Option (String × Octets)
  | '[' :: ':' :: cs =>
    let name := cs.takeWhile (· ≠ ':')
    match cs.dropWhile (· ≠ ':') with
    | ':' :: ']' :: rest => some (.ofList name, rest)
    | _ => none
  | _ => none

/-- The ranges up to the closing bracket. A bracket that comes first is an element. -/
def ranges? (first : Bool) : Nat → Octets → Option (List (Char × Char) × Octets)
  | 0, _ => none
  | _ + 1, [] => none
  | fuel + 1, c :: cs =>
    if c = ']' ∧ !first then some ([], cs)
    else
      match (className? (c :: cs)).bind fun (name, rest) => (ofClass? name).map (·, rest) with
      | some (rs, rest) => (ranges? false fuel rest).map fun (more, rest) => (rs ++ more, rest)
      | none =>
        match cs with
        | '-' :: d :: rest =>
          if d = ']' then (ranges? false fuel cs).map fun (more, rest) => ((c, c) :: more, rest)
          else (ranges? false fuel rest).map fun (more, rest) => ((c, d) :: more, rest)
        | cs => (ranges? false fuel cs).map fun (more, rest) => ((c, c) :: more, rest)

def parse? (cs : Octets) : Option (OctetSet × Octets) :=
  match cs with
  | '!' :: rest | '^' :: rest =>
    (ranges? true (rest.length + 1) rest).map fun (rs, rest) => (⟨true, rs⟩, rest)
  | cs => (ranges? true (cs.length + 1) cs).map fun (rs, rest) => (⟨false, rs⟩, rest)

end OctetSet

/-- A piece of a pattern. -/
inductive Glob
  | run
  | one
  | set (s : OctetSet)
  | exactly (c : Char)
  deriving DecidableEq, Repr

namespace Glob

/-- An octet of a word, and whether it was quoted. -/
abbrev Marked := Char × Bool

/-- The pattern that octets denote; quoted ones stand for themselves. -/
def parse : Nat → List Marked → List Glob
  | 0, _ => []
  | _ + 1, [] => []
  | fuel + 1, (c, isQuoted) :: cs =>
    if isQuoted then .exactly c :: parse fuel cs
    else if c = '*' then .run :: parse fuel cs
    else if c = '?' then .one :: parse fuel cs
    else if c = '[' then
      match OctetSet.parse? (cs.map Prod.fst) with
      | some (s, rest) => .set s :: parse fuel (cs.drop (cs.length - rest.length))
      | none => .exactly c :: parse fuel cs
    else .exactly c :: parse fuel cs

def ofWord (cs : List Marked) : List Glob :=
  parse cs.length cs

/-- The pattern describes something else than one text. -/
def isActive (ps : List Glob) : Bool :=
  ps.any fun
    | .exactly _ => false
    | _ => true

def describes : List Glob → Octets → Bool
  | [], cs => cs.isEmpty
  | .run :: ps, [] => describes ps []
  | .run :: ps, c :: cs => describes ps (c :: cs) || describes (.run :: ps) cs
  | _ :: _, [] => false
  | .one :: ps, _ :: cs => describes ps cs
  | .set s :: ps, c :: cs => s.holds c && describes ps cs
  | .exactly d :: ps, c :: cs => c == d && describes ps cs
termination_by ps cs => ps.length + cs.length

/-- The octets behind the shortest or longest start that the pattern describes. -/
def dropStart (ps : List Glob) (longest : Bool) (cs : Octets) : Octets :=
  let sizes := List.range (cs.length + 1)
  let sizes := if longest then sizes.reverse else sizes
  match sizes.find? fun n => describes ps (cs.take n) with
  | some n => cs.drop n
  | none => cs

/-- The octets before the shortest or longest end that the pattern describes. -/
def dropEnd (ps : List Glob) (longest : Bool) (cs : Octets) : Octets :=
  let sizes := List.range (cs.length + 1)
  let sizes := if longest then sizes else sizes.reverse
  match sizes.find? fun n => describes ps (cs.drop n) with
  | some n => cs.take n
  | none => cs

end Glob

end Punctual.Shell
