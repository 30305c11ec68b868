import Punctual.Shell.Edit.Basic
import Punctual.Json.Value

/-!
# Carrying out edits

The commands of an edit are carried out on one line after another. What is printed is collected with
what is written to files; a line that had no line feed gets one only if something follows it.
-/

namespace Punctual.Shell.Edit

/-! ## Replacing -/

/-- How the next letters are turned: all of them, and the very next one. -/
structure Turning where
  all : Turn
  next : Option Turn

def Turning.octet (t : Turning) (c : Char) : Char :=
  match t.next.getD t.all with
  | .upper | .nextUpper => c.toUpper
  | .lower | .nextLower => c.toLower
  | .keep => c

/-- Octets turned, and how the letters behind them are. -/
def Turning.apply (t : Turning) : Octets → Octets × Turning
  | [] => ([], t)
  | c :: cs => (t.octet c :: cs.map (Turning.octet ⟨t.all, none⟩), ⟨t.all, none⟩)

def newText (m : Regex.Match) (t : Turning) : List NewPiece → Octets
  | [] => []
  | .plain c :: ps =>
    let (cs, t) := t.apply [c]
    cs ++ newText m t ps
  | .group n :: ps =>
    let own := if n = 0 then m.found
      else ((m.groups.find? (·.1 = n)).map Prod.snd).getD []
    let (cs, t) := t.apply own
    cs ++ newText m t ps
  | .turn u :: ps =>
    match u with
    | .nextUpper | .nextLower => newText m { t with next := some u } ps
    | u => newText m ⟨u, none⟩ ps

/-- Replaces matches from the one with number `first` on, and whether there was one. The match
behind `before` is the one with number `n`; right behind a match (`adjacent`) an empty one does not
count. -/
def replaceFrom (r : Regex) (s : Replacement) :
    Nat → Nat → Bool → Octets → Octets → Octets × Bool
  | 0, _, _, _, cs => (cs, false)
  | fuel + 1, n, adjacent, before, cs =>
    match r.search before cs with
    | none => (cs, false)
    | some m =>
      let skipped := m.before.drop before.length
      if m.found.isEmpty && skipped.isEmpty && adjacent then
        match cs with
        | [] => ([], false)
        | c :: rest =>
          let (out, later) := replaceFrom r s fuel n false (before ++ [c]) rest
          (c :: out, later)
      else
        let counts := decide (s.first ≤ n)
        let own := if counts then newText m ⟨.keep, none⟩ s.new else m.found
        if counts && !s.onwards then (skipped ++ own ++ m.behind, true)
        else
          let passed := m.before ++ m.found
          match m.found, m.behind with
          | [], [] => (skipped ++ own, counts)
          | [], c :: rest =>
            let (out, later) := replaceFrom r s fuel (n + 1) false (passed ++ [c]) rest
            (skipped ++ own ++ c :: out, counts || later)
          | _, behind =>
            let (out, later) := replaceFrom r s fuel (n + 1) true passed behind
            (skipped ++ own ++ out, counts || later)

/-! ## States -/

/-- A line, and whether a line feed ended it. -/
structure Line where
  octets : Octets
  isEnded : Bool

/-- What an edit writes. -/
structure Output where
  /-- What was written at a time, the last first. -/
  chunks : List Octets
  /-- A line feed is missing at the end. -/
  owes : Bool

namespace Output

def add (o : Output) (cs : Octets) (owes : Bool) (mark : Char) : Output :=
  ⟨((if o.owes then [mark] else []) ++ cs) :: o.chunks, owes⟩

def octets (o : Output) : Octets :=
  o.chunks.reverse.flatten

end Output

/-- Whether a range of a command has begun, and up to which line it lasts if that is known. -/
inductive RangeState
  | outside
  | inside (last : Option Nat)

/-- What is written behind a line: a text, or the contents of a file. -/
inductive Pending
  | text (cs : Octets)
  | file (path : Octets)

/-- An edit while it is carried out. -/
structure State where
  line : Line
  stored : Line
  number : Nat
  rest : List Line
  ranges : Array RangeState
  /-- Something was replaced since the line was read. -/
  replaced : Bool
  pending : List Pending
  output : Output
  /-- What is written to files. -/
  files : List (Octets × Output)
  lastRegex : Option Regex

/-- The surroundings of an edit. -/
structure Context where
  commands : Array EditCommand
  /-- Lines are printed only on demand. -/
  quiet : Bool
  /-- The mark that ends lines. -/
  mark : Char
  name : Octets
  /-- The contents of files. -/
  contents : Octets → Octets

/-- How the commands for a line end. -/
inductive Fate
  | finished
  /-- The line is not printed. -/
  | dropped
  /-- The commands start again without a new line. -/
  | restarted
  | quit (prints : Bool) (status : Nat)
  /-- The commands go on without end. -/
  | endless

/-! ## Lines at addresses -/

/-- The line is at an address; the expression is kept as the last one. -/
def isAt (s : State) (a : Address) : Bool × State :=
  match a with
  | .number n => (s.number == n, s)
  | .last => (s.rest.isEmpty, s)
  | .stepped first step =>
    (if step = 0 then s.number == first
      else first ≤ s.number && (s.number - first) % step == 0, s)
  | .matching r? =>
    let r? := r?.or s.lastRegex
    (r?.any fun r => r.occursIn s.line.octets, { s with lastRegex := r? })

/-- The range begins at the line: how it goes on. -/
def beginRange (s : State) : RangeEnd → RangeState
  | .behind n => if n = 0 then .outside else .inside (some (s.number + n))
  | .multiple n =>
    if n = 0 || s.number % n = 0 then .outside
    else .inside (some (s.number + n - s.number % n))
  | .at (.number n) => if n ≤ s.number then .outside else .inside (some n)
  | .at .last => if s.rest.isEmpty then .outside else .inside none
  | .at _ => .inside none

/-- The line is in a range that has begun: how it goes on, and whether the line belongs to it. -/
def goOnInRange (s : State) (e : RangeEnd) (last : Option Nat) : Bool × RangeState × State :=
  match last with
  | some n =>
    if s.number < n then (true, .inside last, s)
    else (s.number = n, .outside, s)
  | none =>
    match e with
    | .at a =>
      let (ends, s) := isAt s a
      (true, if ends then .outside else .inside none, s)
    | _ => (true, .outside, s)

def isFor (s : State) (i : Nat) (cmd : EditCommand) : Bool × State :=
  let (found, s) : Bool × State := match cmd.lines with
    | .all => (true, s)
    | .at a => isAt s a
    | .between a e =>
      let state := match s.ranges[i]?, a with
        | some .outside, .number 0 => if s.number = 1 then RangeState.inside none else .outside
        | some state, _ => state
        | none, _ => .outside
      match state with
      | .inside last =>
        let (found, state, s) := goOnInRange s e last
        if found then (true, { s with ranges := s.ranges.setIfInBounds i state })
        else
          let (begins, s) := isAt s a
          let state := if begins then beginRange s e else .outside
          (begins, { s with ranges := s.ranges.setIfInBounds i state })
      | .outside =>
        let (begins, s) := isAt s a
        if begins then (true, { s with ranges := s.ranges.setIfInBounds i (beginRange s e) })
        else (false, s)
  (found != cmd.inverted, s)

/-! ## Commands -/

/-- The line with the mark that ends it, if it had one. -/
def lineText (c : Context) (l : Line) : Octets :=
  l.octets ++ if l.isEnded then [c.mark] else []

def printLine (c : Context) (l : Line) (s : State) : State :=
  { s with output := s.output.add (lineText c l) (!l.isEnded) c.mark }

def printText (c : Context) (cs : Octets) (s : State) : State :=
  { s with output := s.output.add cs false c.mark }

/-- Writes a line to a file; a device stands for the output. -/
def writeLine (c : Context) (path : Octets) (l : Line) (s : State) : State :=
  if path = "/dev/stdout".toList then printLine c l s
  else
    let before := (find? path s.files).getD ⟨[], false⟩
    { s with files := upsert path (before.add (lineText c l) (!l.isEnded) c.mark) s.files }

def settle (c : Context) (s : State) : State :=
  let s := s.pending.foldl (fun s p => match p with
    | .text cs => printText c cs s
    | .file path =>
      let cs := c.contents path
      if cs.isEmpty then s else printText c cs s) s
  { s with pending := [] }

def advance (c : Context) (s : State) : Option State :=
  match s.rest with
  | [] => none
  | l :: ls =>
    let s := settle c s
    some { s with line := l, rest := ls, number := s.number + 1 }

def visible (c : Char) : Octets :=
  match c with
  | '\\' => "\\\\".toList
  | '\x07' => "\\a".toList
  | '\x08' => "\\b".toList
  | '\x0c' => "\\f".toList
  | '\n' => "\\n".toList
  | '\r' => "\\r".toList
  | '\t' => "\\t".toList
  | '\x0b' => "\\v".toList
  | c =>
    if ' ' ≤ c && c ≤ '~' then [c]
    else
      let ds := Nat.toDigits 8 c.toNat
      '\\' :: List.replicate (3 - ds.length) '0' ++ ds

def wrapped (width : Nat) (column : Nat) : Octets → Octets
  | [] => ['$']
  | c :: cs =>
    let v := visible c
    if 1 < width && width - 1 < column + v.length then
      "\\\n".toList ++ v ++ wrapped width v.length cs
    else v ++ wrapped width (column + v.length) cs

def placeOf (c : Context) (label : Octets) : Nat :=
  (c.commands.findIdx? fun cmd => match cmd.change with
    | .label n => n == label
    | _ => false).getD c.commands.size

/-- The place behind the block that begins before a place; `depth` counts inner blocks. -/
def behindBlock (c : Context) : Nat → Nat → Nat → Nat
  | 0, _, i => i
  | fuel + 1, depth, i =>
    match (c.commands[i]?).map EditCommand.change with
    | none => i
    | some .opening => behindBlock c fuel (depth + 1) (i + 1)
    | some .closing => if depth = 0 then i + 1 else behindBlock c fuel (depth - 1) (i + 1)
    | some _ => behindBlock c fuel depth (i + 1)

def firstLine (s : State) : Octets :=
  s.line.octets.takeWhile (· ≠ '\n')

def withOctets (s : State) (cs : Octets) : State :=
  { s with line := { s.line with octets := cs } }

/-- What a command does, and where it goes on: at a place, or behind the last one. -/
def apply (c : Context) (s : State) (i : Nat) (cmd : EditCommand) : State × Except Fate Nat :=
  let goOn (s : State) : State × Except Fate Nat := (s, .ok (i + 1))
  match cmd.change with
  | .nothing | .label _ | .opening | .closing => goOn s
  | .replace r =>
    let old := r.old.or s.lastRegex
    let s := { s with lastRegex := old }
    match old with
    | none => goOn s
    | some old =>
      let cs := s.line.octets
      let (cs, found) := replaceFrom old r (2 * cs.length + 3) 1 false [] cs
      if found then
        let s := { withOctets s cs with replaced := true }
        let s := if r.prints then printLine c s.line s else s
        goOn (match r.target with
          | some path => writeLine c path s.line s
          | none => s)
      else goOn s
  | .translate pairs =>
    goOn (withOctets s (s.line.octets.map fun x => (find? x pairs).getD x))
  | .print => goOn (printLine c s.line s)
  | .printFirst => goOn (printText c (firstLine s ++ [c.mark]) s)
  | .drop => (s, .error .dropped)
  | .dropFirst =>
    if s.line.octets.contains '\n' then
      (withOctets s ((s.line.octets.dropWhile (· ≠ '\n')).drop 1), .error .restarted)
    else (s, .error .dropped)
  | .clear => goOn (withOctets s [])
  | .quit prints status => (s, .error (.quit prints status))
  | .number => goOn (printText c (Octets.ofNat s.number ++ ['\n']) s)
  | .name => goOn (printText c (c.name ++ ['\n']) s)
  | .show width => goOn (printText c (wrapped width 0 s.line.octets ++ ['\n']) s)
  | .next =>
    if s.rest.isEmpty then (s, .error .finished)
    else
      let s := if c.quiet then s else printLine c s.line s
      goOn ((advance c s).getD s)
  | .join =>
    let before := s.line.octets
    match advance c s with
    | none => (s, .error .finished)
    | some s => goOn (withOctets s (before ++ [c.mark] ++ s.line.octets))
  | .store => goOn { s with stored := { s.line with isEnded := true } }
  | .storeMore =>
    goOn { s with stored := ⟨s.stored.octets ++ [c.mark] ++ s.line.octets, true⟩ }
  | .fetch => goOn (withOctets s s.stored.octets)
  | .fetchMore => goOn { s with line := ⟨s.line.octets ++ [c.mark] ++ s.stored.octets, true⟩ }
  | .exchange => goOn { s with line := s.stored, stored := s.line }
  | .after text => goOn { s with pending := s.pending ++ [.text text] }
  | .before text => goOn (printText c text s)
  | .instead text =>
    let isLast := match s.ranges[i]? with
      | some (.inside _) => cmd.inverted
      | _ => true
    (if isLast then printText c text s else s, .error .dropped)
  | .read path => goOn { s with pending := s.pending ++ [.file path] }
  | .write path => goOn (writeLine c path s.line s)
  | .writeFirst path => goOn (writeLine c path ⟨firstLine s, true⟩ s)
  | .jump label =>
    (s, .ok (if label.isEmpty then c.commands.size else placeOf c label))
  | .jumpIf replaced label =>
    let place := if label.isEmpty then c.commands.size else placeOf c label
    ({ s with replaced := false }, .ok (if s.replaced == replaced then place else i + 1))

def carryOut (c : Context) : Nat → Nat → State → State × Fate
  | 0, _, s => (s, .endless)
  | fuel + 1, i, s =>
    match c.commands[i]? with
    | none => (s, .finished)
    | some cmd =>
      let (found, s) := isFor s i cmd
      if found then
        match apply c s i cmd with
        | (s, .ok i) => carryOut c fuel i s
        | (s, .error fate) => (s, fate)
      else
        match cmd.change with
        | .opening => carryOut c fuel (behindBlock c c.commands.size 0 (i + 1)) s
        | _ => carryOut c fuel (i + 1) s

/-- The number of commands that no edit of a line carries out if it ends. -/
def bound : Nat := 1000000

/-- The end of an edit: its state, its status, whether it stopped before the end of its input, and
whether it ends at all. -/
structure Outcome where
  state : State
  status : Nat
  quits : Bool
  ends : Bool

/-- Carries out an edit; a line has been taken already. -/
def runLines (c : Context) : Nat → State → Outcome
  | 0, s => ⟨s, 0, false, false⟩
  | fuel + 1, s =>
    let (s, fate) := carryOut c bound 0 s
    let printed (s : State) : State := if c.quiet then s else printLine c s.line s
    match fate with
    | .endless => ⟨s, 0, true, false⟩
    | .quit prints status => ⟨if prints then settle c (printed s) else s, status, true, true⟩
    | .restarted => runLines c fuel (settle c s)
    | .finished => goOn fuel (printed s)
    | .dropped => goOn fuel s
where
  goOn (fuel : Nat) (s : State) : Outcome :=
    match advance c { s with replaced := false } with
    | none => ⟨settle c s, 0, false, true⟩
    | some s => runLines c fuel s

def run (c : Context) (stored : Line) (lines : List Line) : Outcome :=
  let start : State := {
    line := ⟨[], true⟩
    stored := stored
    number := 0
    rest := lines
    ranges := Array.replicate c.commands.size .outside
    replaced := false
    pending := []
    output := ⟨[], false⟩
    files := []
    lastRegex := none }
  match advance c start with
  | none => ⟨start, 0, false, true⟩
  | some s =>
    runLines c (bound + lines.length) s

end Punctual.Shell.Edit
