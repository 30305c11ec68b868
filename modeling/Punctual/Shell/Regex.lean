import Punctual.Shell.Glob

/-!
# Regular expressions

Regular expressions, as programs use them that search and edit lines. A match is searched from left
to right, and of those that start at the same place the longest is taken; groups keep the octets that
they matched.
-/

namespace Punctual.Shell

/-- What a place is to a word. -/
inductive Edge
  | start
  | stop
  | any
  | inner
  /-- No word ends here. -/
  | clearLeft
  /-- No word starts here. -/
  | clearRight
  deriving DecidableEq

def isWordOctet (c : Char) : Bool :=
  c.isAlphanum || c == '_'

/-- The place between two octets, where there are octets, is as an edge says. -/
def Edge.holds (e : Edge) (before behind : Option Char) : Bool :=
  let left := before.any isWordOctet
  let right := behind.any isWordOctet
  match e with
  | .start => !left && right
  | .stop => left && !right
  | .any => left != right
  | .inner => left == right
  | .clearLeft => !left
  | .clearRight => !right

/-- A regular expression. -/
inductive Regex
  | empty
  | one (s : OctetSet)
  | lineStart
  | lineEnd
  /-- A place where a word starts or ends, or where neither is the case. -/
  | edge (e : Edge)
  | both (a b : Regex)
  | either (a b : Regex)
  | repeated (r : Regex) (low : Nat) (high : Option Nat)
  | group (n : Nat) (r : Regex)
  /-- The same octets that a group matched. -/
  | again (n : Nat)

namespace Regex

/-! ## Matching -/

/-- How far a line has been matched. -/
structure Front where
  /-- The octet in front of the rest. -/
  last : Option Char
  rest : Octets
  taken : Nat
  groups : List (Nat × Octets)

/-- Matches an expression at a front, and goes on behind it. -/
def matchFrom : Nat → Regex → Front → (Front → Option Front) → Option Front
  | 0, _, _, _ => none
  | fuel + 1, r, s, go =>
    match r with
    | .empty => go s
    | .one set =>
      match s.rest with
      | c :: cs =>
        if set.holds c then go { s with last := some c, rest := cs, taken := s.taken + 1 } else none
      | [] => none
    | .lineStart => if s.taken = 0 then go s else none
    | .lineEnd => if s.rest.isEmpty then go s else none
    | .edge e => if e.holds s.last s.rest.head? then go s else none
    | .both a b => matchFrom fuel a s fun s => matchFrom fuel b s go
    | .either a b => (matchFrom fuel a s go).or (matchFrom fuel b s go)
    | .repeated a low high =>
      let more : Option Front :=
        if high = some 0 then none
        else matchFrom fuel a s fun t =>
          if t.taken = s.taken then none
          else matchFrom fuel (.repeated a (low - 1) (high.map (· - 1))) t go
      more.or (if low = 0 then go s else none)
    | .group n a => matchFrom fuel a s fun t =>
        go { t with groups := (n, s.rest.take (t.taken - s.taken)) :: t.groups }
    | .again n =>
      match (s.groups.find? (·.1 = n)).map Prod.snd with
      | none => none
      | some known =>
        if known.isPrefixOf s.rest then
          go { s with
            last := known.getLast?.or s.last
            rest := s.rest.drop known.length
            taken := s.taken + known.length }
        else none

/-- A match: the octets before it, the match, its groups, and the octets behind it. -/
structure Match where
  before : Octets
  found : Octets
  groups : List (Nat × Octets)
  behind : Octets

/-- How deep matching a line of some length goes at most. -/
def depth (n : Nat) : Nat :=
  200 * (n + 20)

/-- The longest match at a front; each one that is found has to be longer than the one before. -/
def longest (r : Regex) (start : Front) : Nat → Option Front → Option Front
  | 0, best => best
  | fuel + 1, best =>
    let isBetter (s : Front) : Bool := best.all fun b => b.taken < s.taken
    match matchFrom (depth start.rest.length) r start fun s => if isBetter s then some s else none with
    | none => best
    | some s => if s.rest.isEmpty then some s else longest r start fuel (some s)

/-- The first match in octets that follow `before`, and of those that start there the longest. -/
def search (r : Regex) (before : Octets) : Octets → Option Match
  | [] => matchHere []
  | c :: cs => (matchHere (c :: cs)).or (search r (before ++ [c]) cs)
where
  matchHere (cs : Octets) : Option Match :=
    (longest r ⟨before.getLast?, cs, before.length, []⟩ (cs.length + 1) none).map fun s =>
      ⟨before, cs.take (s.taken - before.length), s.groups, s.rest⟩

def occursIn (r : Regex) (line : Octets) : Bool :=
  (r.search [] line).isSome

/-! ## Making expressions -/

def octet (anyCase : Bool) (c : Char) : Regex :=
  if anyCase then .one ⟨false, [(c.toLower, c.toLower), (c.toUpper, c.toUpper)]⟩
  else .one ⟨false, [(c, c)]⟩

def anyOctet : Regex :=
  .one ⟨true, []⟩

/-- A set, in which letters count in either case. -/
def setOf (anyCase : Bool) (s : OctetSet) : Regex :=
  if !anyCase then .one s
  else
    .one { s with ranges := s.ranges ++
      s.ranges.map (fun (a, b) => (a.toLower, b.toLower)) ++
      s.ranges.map fun (a, b) => (a.toUpper, b.toUpper) }

def groupCount : Regex → Nat
  | .both a b | .either a b => groupCount a + groupCount b
  | .repeated r _ _ => groupCount r
  | .group _ r => groupCount r + 1
  | _ => 0

/-- The expression, as a whole line or as whole words. -/
def framed (wholeLine wholeWords : Bool) (r : Regex) : Regex :=
  let r := if wholeWords then .both (.edge .clearLeft) (.both r (.edge .clearRight)) else r
  if wholeLine then .both .lineStart (.both r .lineEnd) else r

/-- The expression that matches nothing but some octets. -/
def literal (anyCase : Bool) (cs : Octets) : Regex :=
  cs.foldr (fun c r => .both (octet anyCase c) r) .empty

end Regex

end Punctual.Shell
