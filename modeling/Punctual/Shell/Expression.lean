import Punctual.Shell.Regex

/-!
# Reading regular expressions

A regular expression is written in one of two languages: in the basic one most operators have a
backslash in front, in the extended one none has. Programs that search are lenient: an operator
without anything to apply to stands for itself, or is passed over with a warning. Those that edit
refuse it.
-/

namespace Punctual.Shell

namespace Regex

/-- The language of an expression. -/
structure Dialect where
  isExtended : Bool
  isLenient : Bool
  deriving DecidableEq

def Dialect.basic : Dialect := ⟨false, false⟩

/-- The extended language of programs that edit. -/
def Dialect.extended : Dialect := ⟨true, false⟩

/-- The basic language of programs that search. -/
def Dialect.plain : Dialect := ⟨false, true⟩

/-- The extended language of programs that search. -/
def Dialect.free : Dialect := ⟨true, true⟩

/-- Why octets are no expression. -/
inductive Flaw
  | nothingInBracket
  | unmatchedBracket
  | unmatchedOpening
  | unmatchedClosing
  | unmatchedBrace
  | badBounds
  | tooBig
  | nothingToRepeat
  | badRange
  | badClass
  | badElement
  | badReference
  | trailingBackslash
  /-- A class stands where only a set can stand. -/
  | classOutside
  deriving DecidableEq

def Flaw.message : Flaw → String
  | nothingInBracket => "Invalid regular expression"
  | unmatchedBracket => "Unmatched [, [^, [:, [., or [="
  | unmatchedOpening => "Unmatched ( or \\("
  | unmatchedClosing => "Unmatched ) or \\)"
  | unmatchedBrace => "Unmatched \\\x7b"
  | badBounds => "Invalid content of \\\x7b\\\x7d"
  | tooBig => "Regular expression too big"
  | nothingToRepeat => "Invalid preceding regular expression"
  | badRange => "Invalid range end"
  | badClass => "Invalid character class name"
  | badElement => "Invalid collation character"
  | badReference => "Invalid back reference"
  | trailingBackslash => "Trailing backslash"
  | classOutside => "character class syntax is [[:space:]], not [:space:]"

/-- An expression that was read, and what a reader may be warned of. -/
structure Parsed where
  regex : Regex
  warnings : List String

/-! ## Operators -/

/-- An operator of a regular expression. -/
inductive Operator
  | openGroup
  | closeGroup
  | alternative
  | star
  | plus
  | maybe
  | openBounds
  deriving DecidableEq

def operatorOf? (c : Char) : Option Operator :=
  if c = '(' then some .openGroup
  else if c = ')' then some .closeGroup
  else if c = '|' then some .alternative
  else if c = '+' then some .plus
  else if c = '?' then some .maybe
  else if c = '\x7b' then some .openBounds
  else none

/-- The operator at the front, its octet, and the octets behind it. -/
def operator? (d : Dialect) (cs : Octets) : Option (Operator × Char × Octets) :=
  match cs with
  | '*' :: rest => some (.star, '*', rest)
  | '\\' :: c :: rest =>
    if d.isExtended then none else (operatorOf? c).map fun o => (o, c, rest)
  | c :: rest => if d.isExtended then (operatorOf? c).map fun o => (o, c, rest) else none
  | [] => none

/-! ## Bounds -/

/-- What stands in braces. -/
inductive Bounds
  | between (low : Nat) (high : Option Nat) (rest : Octets)
  /-- The braces stand for themselves. -/
  | none

def maxRepetitions : Nat := 32767

/-- The octets up to a comma or the closing brace, and those from there on. -/
def boundText (d : Dialect) : Octets → Octets × Octets
  | [] => ([], [])
  | c :: cs =>
    let isEnd := c = ',' || (d.isExtended && c = '\x7d') ||
      (!d.isExtended && c = '\\' && cs.head? = some '\x7d')
    if isEnd then ([], c :: cs)
    else
      let (text, rest) := boundText d cs
      (c :: text, rest)

/-- The bounds of a repetition, behind their opening brace. -/
def bounds (d : Dialect) (cs : Octets) : Except Flaw Bounds :=
  let wrong (rest : Octets) : Except Flaw Bounds :=
    if d = .free then .ok .none else .error (if rest.isEmpty then .unmatchedBrace else .badBounds)
  let closed? (rest : Octets) : Option Octets :=
    match d.isExtended, rest with
    | false, '\\' :: '\x7d' :: rest => some rest
    | true, '\x7d' :: rest => some rest
    | _, _ => Option.none
  let (first, rest) := boundText d cs
  let low := Text.natOfDigits first
  if rest.isEmpty || !first.all Char.isDigit then wrong rest
  else if first.isEmpty && rest.head? != some ',' then .error .badBounds
  else
    match closed? rest with
    | some rest => if maxRepetitions < low then .error .tooBig else .ok (.between low (some low) rest)
    | Option.none =>
      let (second, rest) := boundText d (rest.drop 1)
      let high := if second.isEmpty then Option.none else some (Text.natOfDigits second)
      if rest.isEmpty || !second.all Char.isDigit then wrong rest
      else
        match closed? rest with
        | some rest =>
          if high.any fun h => decide (h < low) then .error .badBounds
          else if maxRepetitions < high.getD low then .error .tooBig
          else .ok (.between low high rest)
        | Option.none => .error .badBounds

/-! ## Sets -/

/-- The octets up to a mark and a closing bracket, and those behind them. -/
def upToMark (mark : Char) : Octets → Option (Octets × Octets)
  | [] => none
  | c :: cs =>
    if c = mark && cs.head? = some ']' then some ([], cs.drop 1)
    else (upToMark mark cs).map fun (name, rest) => (c :: name, rest)

/-- An element of a set: a class of octets, or one octet. -/
inductive Element
  | octets (ranges : List (Char × Char))
  | one (c : Char)

/-- The element at the front, which is not the end. -/
def element (c : Char) (cs : Octets) : Except Flaw (Element × Octets) :=
  match c, cs with
  | '[', mark :: rest =>
    if mark = ':' || mark = '=' || mark = '.' then
      match upToMark mark rest with
      | none => .error .unmatchedBracket
      | some (name, rest) =>
        if mark = ':' then
          match OctetSet.ofClass? (.ofList name) with
          | some ranges => .ok (.octets ranges, rest)
          | none => .error .badClass
        else
          match name with
          | [d] => .ok (.one d, rest)
          | _ => .error .badElement
    else .ok (.one '[', cs)
  | c, cs => .ok (.one c, cs)

/-- The ranges up to the closing bracket. A bracket that comes first is an element. -/
def setRanges (first : Bool) : Nat → Octets → Except Flaw (List (Char × Char) × Octets)
  | 0, _ | _, [] => .error .unmatchedBracket
  | fuel + 1, c :: cs =>
    if c = ']' && !first then .ok ([], cs)
    else do
      let (e, rest) ← element c cs
      let isRange := rest.head? = some '-' && (rest.drop 1).head? != some ']'
      match e, isRange, rest.drop 1 with
      | _, true, [] => .error .unmatchedBracket
      | .octets _, true, _ => .error .badRange
      | .one low, true, d :: behind => do
        match ← element d behind with
        | (.one high, rest) =>
          if high < low then .error .badRange
          else
            let (more, rest) ← setRanges false fuel rest
            return ((low, high) :: more, rest)
        | (.octets _, _) => .error .badRange
      | .octets ranges, false, _ => do
        let (more, rest) ← setRanges false fuel rest
        return (ranges ++ more, rest)
      | .one c, false, _ => do
        let (more, rest) ← setRanges false fuel rest
        return ((c, c) :: more, rest)

/-- Octets in brackets look like a class that needs brackets around it. -/
def isBareClass (inner : Octets) : Bool :=
  inner.head? = some ':' && inner.any (· != ':') && !inner.contains '-' && !inner.contains '['

def set (cs : Octets) : Except Flaw (OctetSet × Octets) := do
  let (negated, cs) := match cs with
    | '^' :: rest => (true, rest)
    | cs => (false, cs)
  if cs.isEmpty then .error .nothingInBracket
  else
    let (ranges, rest) ← setRanges true (cs.length + 1) cs
    if isBareClass (cs.take (cs.length - rest.length - 1)) then .error .classOutside
    else return (⟨negated, ranges⟩, rest)

/-- What an octet behind a backslash stands for. -/
def escaped (anyCase : Bool) (c : Char) : Regex :=
  if c = 'n' then .one ⟨false, [('\n', '\n')]⟩
  else if c = 't' then .one ⟨false, [('\t', '\t')]⟩
  else if c = 'w' then .one ⟨false, [('0', '9'), ('a', 'z'), ('A', 'Z'), ('_', '_')]⟩
  else if c = 'W' then .one ⟨true, [('0', '9'), ('a', 'z'), ('A', 'Z'), ('_', '_')]⟩
  else if c = 's' then .one ⟨false, [(' ', ' '), ('\t', '\r')]⟩
  else if c = 'S' then .one ⟨true, [(' ', ' '), ('\t', '\r')]⟩
  else octet anyCase c

/-- The place that an octet behind a backslash stands for. -/
def anchor? (c : Char) : Option Regex :=
  if c = 'b' then some (.edge .any)
  else if c = 'B' then some (.edge .inner)
  else if c = '<' then some (.edge .start)
  else if c = '>' then some (.edge .stop)
  else if c = '\x60' then some .lineStart
  else if c = '\x27' then some .lineEnd
  else none

/-! ## Expressions -/

/-- How far an expression has been read. -/
structure State where
  /-- How many groups have been opened. -/
  opened : Nat
  /-- The groups that have been closed. -/
  closed : List Nat
  warnings : List String

abbrev Reader := StateT State (Except Flaw)

/-- What stands in front of a part of an expression. -/
inductive Lead
  /-- The start of an alternative. -/
  | start
  /-- A place, which cannot be repeated. -/
  | anchor
  | part
  deriving DecidableEq

/-- An expression with the repetitions that stand behind it. -/
def repetitions (d : Dialect) : Nat → Regex → Octets → Except Flaw (Regex × Octets)
  | 0, r, cs => .ok (r, cs)
  | fuel + 1, r, cs => do
    let goOn (r : Regex) (rest : Octets) : Except Flaw (Regex × Octets) :=
      let isRepeatedAgain := match operator? d rest with
        | some (.star, _) | some (.openBounds, _) => true
        | _ => false
      if d = .basic && isRepeatedAgain then .error .nothingToRepeat else repetitions d fuel r rest
    match operator? d cs with
    | some (.star, _, rest) => goOn (.repeated r 0 none) rest
    | some (.plus, _, rest) => goOn (.repeated r 1 none) rest
    | some (.maybe, _, rest) => goOn (.repeated r 0 (some 1)) rest
    | some (.openBounds, _, rest) =>
      match ← bounds d rest with
      | .between low high rest => goOn (.repeated r low high) rest
      | .none => return (r, cs)
    | _ => return (r, cs)

def isAtEnd (d : Dialect) (cs : Octets) : Bool :=
  cs.isEmpty ||
    match operator? d cs with
    | some (.closeGroup, _, _) | some (.alternative, _, _) => true
    | _ => false

/-- The octets behind an operator that has nothing to apply to, if it is passed over. -/
def passOver (d : Dialect) (o : Operator) (c : Char) (rest : Octets) : Reader (Option Octets) := do
  let warn (what : String) : Reader Unit :=
    modify fun s => { s with warnings := s.warnings ++ [what ++ " at start of expression"] }
  if !d.isLenient then throw .nothingToRepeat
  else if o = .openBounds then
    match ← bounds d rest with
    | .between _ _ rest =>
      warn "\x7b...\x7d"
      return some rest
    | .none => return none
  else
    warn c.toString
    return some rest

mutual

/-- Alternatives up to the end or the parenthesis that closes the group around them. -/
def alternatives (d : Dialect) (anyCase isInner : Bool) : Nat → Octets → Reader (Regex × Octets)
  | 0, _ => throw .tooBig
  | fuel + 1, cs => do
    let (r, rest) ← sequence d anyCase isInner .start fuel cs
    match operator? d rest with
    | some (.alternative, _, rest) =>
      let (more, rest) ← alternatives d anyCase isInner fuel rest
      return (.either r more, rest)
    | _ => return (r, rest)

def sequence (d : Dialect) (anyCase isInner : Bool) (lead : Lead) :
    Nat → Octets → Reader (Regex × Octets)
  | 0, _ => throw .tooBig
  | fuel + 1, cs => do
    let goOn (r : Regex) (rest : Octets) : Reader (Regex × Octets) := do
      let (r, rest) ← repetitions d (rest.length + 1) r rest
      let (more, rest) ← sequence d anyCase isInner .part fuel rest
      return (.both r more, rest)
    let anchored (r : Regex) (rest : Octets) : Reader (Regex × Octets) := do
      let (more, rest) ← sequence d anyCase isInner .anchor fuel rest
      return (.both r more, rest)
    match operator? d cs with
    | some (.alternative, _, _) => return (.empty, cs)
    | some (.closeGroup, c, rest) =>
      if !isInner && d = .free then goOn (octet anyCase c) rest else return (.empty, cs)
    | some (.openGroup, _, rest) =>
      let n := (← get).opened + 1
      modify fun s => { s with opened := n }
      let (r, rest) ← alternatives d anyCase true fuel rest
      match operator? d rest with
      | some (.closeGroup, _, rest) =>
        modify fun s => { s with closed := n :: s.closed }
        goOn (.group n r) rest
      | _ => throw .unmatchedOpening
    | some (o, c, rest) =>
      if lead = .part then goOn (octet anyCase c) rest
      else if d.isExtended then
        match ← passOver d o c rest with
        | some rest => sequence d anyCase isInner lead fuel rest
        | none => goOn (octet anyCase c) rest
      else if o = .openBounds && !d.isLenient then throw .nothingToRepeat
      else goOn (octet anyCase c) rest
    | none =>
      match cs with
      | [] => return (.empty, [])
      | '^' :: rest =>
        if lead = .start || d.isExtended then anchored .lineStart rest
        else goOn (octet anyCase '^') rest
      | '$' :: rest =>
        if isAtEnd d rest || d.isExtended then anchored .lineEnd rest
        else goOn (octet anyCase '$') rest
      | '.' :: rest => goOn anyOctet rest
      | '[' :: rest =>
        let (s, rest) ← set rest
        goOn (setOf anyCase s) rest
      | ['\\'] => throw .trailingBackslash
      | '\\' :: c :: rest =>
        if '1' ≤ c ∧ c ≤ '9' then
          let n := c.toNat - 0x30
          if (← get).closed.contains n then goOn (.again n) rest else throw .badReference
        else
          match anchor? c with
          | some r => anchored r rest
          | none => goOn (escaped anyCase c) rest
      | c :: rest => goOn (octet anyCase c) rest

end

def parse (d : Dialect) (anyCase : Bool) (cs : Octets) : Except Flaw Parsed :=
  match (alternatives d anyCase false (4 * cs.length + 8) cs).run ⟨0, [], []⟩ with
  | .ok ((r, []), s) => .ok ⟨r, s.warnings⟩
  | .ok _ => .error .unmatchedClosing
  | .error f => .error f

end Regex

end Punctual.Shell
