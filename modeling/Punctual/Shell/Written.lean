import Punctual.Number.Read
import Punctual.Number.Written
import Punctual.Shell.Octets
import Punctual.Text.Hex

/-!
# Formatted output

Escapes behind backslashes, and formats with directives that arguments fill in.
-/

namespace Punctual.Shell.Written

def octal (ds : Octets) : Char :=
  .ofNat (ds.foldl (fun n d => n * 8 + (d.toNat - 0x30)) 0 % 256)

def isOctal (c : Char) : Bool :=
  '0' ≤ c && c ≤ '7'

/-- The octets that a letter behind a backslash stands for. -/
def letter? (c : Char) : Option Char :=
  if c = 'a' then some '\x07'
  else if c = 'b' then some '\x08'
  else if c = 'f' then some '\x0C'
  else if c = 'n' then some '\n'
  else if c = 'r' then some '\r'
  else if c = 't' then some '\t'
  else if c = 'v' then some '\x0B'
  else if c = 'e' then some '\x1b'
  else if c = '\\' then some '\\'
  else none

/-- An octet behind a backslash that is written by its number: in base eight, or behind a letter in
base sixteen if `hexes`. -/
def numbered? (hexes : Bool) (cs : Octets) : Option (Char × Octets) :=
  match cs with
  | 'x' :: rest =>
    let ds := (rest.take 2).takeWhile fun c => (Text.hexDigit? c).isSome
    if hexes && !ds.isEmpty then
      some (.ofNat (ds.foldl (fun n c => n * 16 + (Text.hexDigit? c).getD 0) 0),
        rest.drop ds.length)
    else none
  | cs =>
    let ds := (cs.take 3).takeWhile isOctal
    if ds.isEmpty then none else some (octal ds, cs.drop ds.length)

/-- The octets of an argument with escapes, and whether output ends there. An octal number may have a
zero more in front. -/
def unescape (hexes : Bool) : Nat → Octets → Octets × Bool
  | 0, cs => (cs, false)
  | _, [] => ([], false)
  | fuel + 1, '\\' :: c :: cs =>
    if c = 'c' then ([], true)
    else
      let digits := if c = '0' && cs.head?.any isOctal then cs else c :: cs
      match numbered? hexes digits with
      | some (d, rest) =>
        let (out, ends) := unescape hexes fuel rest
        (d :: out, ends)
      | none =>
        let (rest, ends) := unescape hexes fuel cs
        match letter? c with
        | some d => (d :: rest, ends)
        | none => ('\\' :: c :: rest, ends)
  | fuel + 1, c :: cs =>
    let (rest, ends) := unescape hexes fuel cs
    (c :: rest, ends)

/-- A number in a directive: it is written there, or the next argument gives it. -/
inductive Measure
  | fixed (n : Nat)
  | given
  deriving DecidableEq, Repr

/-- A directive: flags, least width, places, and the letter that tells the kind of its argument. -/
structure Directive where
  leftward : Bool
  zeros : Bool
  /-- Numbers in base eight and sixteen show their base. -/
  marksBase : Bool
  sign : Option Char
  width : Measure
  places : Option Measure
  kind : Char
  deriving DecidableEq, Repr

/-- A piece of a format. -/
inductive Piece
  | plain (c : Char)
  | directive (d : Directive)
  /-- What cannot be read; nothing behind it is used. -/
  | wrong (cs : Octets)
  deriving DecidableEq, Repr

def measure (cs : Octets) : Measure × Octets :=
  match cs with
  | '*' :: cs => (.given, cs)
  | cs => (.fixed (Text.natOfDigits (cs.takeWhile Char.isDigit)), cs.dropWhile Char.isDigit)

def kinds : List Char := "diouxXeEfFgGcsb".toList

/-- The directive behind a percent sign, and the octets behind it. -/
def directive (cs : Octets) : Piece × Octets :=
  let isFlag (c : Char) := c == '-' || c == '0' || c == '+' || c == ' ' || c == '#'
  let flags := cs.takeWhile isFlag
  let (width, rest) := measure (cs.dropWhile isFlag)
  let (places, rest) := match rest with
    | '.' :: rest =>
      let (n, rest) := measure rest
      (some n, rest)
    | rest => (none, rest)
  match rest with
  | [] => (.wrong [], [])
  | kind :: rest =>
    let sign := if flags.contains '+' then some '+' else if flags.contains ' ' then some ' '
      else none
    if kinds.contains kind then
      (.directive ⟨flags.contains '-', flags.contains '0', flags.contains '#', sign, width, places,
        kind⟩, rest)
    else (.wrong ('%' :: cs.take (cs.length - rest.length)), rest)

def pieces (hexes : Bool) : Nat → Octets → List Piece
  | 0, _ => []
  | _, [] => []
  | fuel + 1, '%' :: '%' :: cs => .plain '%' :: pieces hexes fuel cs
  | fuel + 1, '%' :: cs =>
    let (p, rest) := directive cs
    p :: pieces hexes fuel rest
  | fuel + 1, '\\' :: c :: cs =>
    match numbered? hexes (c :: cs), letter? c with
    | some (d, rest), _ => .plain d :: pieces hexes fuel rest
    | none, some d => .plain d :: pieces hexes fuel cs
    | none, none => .plain '\\' :: pieces hexes fuel (c :: cs)
  | fuel + 1, c :: cs => .plain c :: pieces hexes fuel cs

/-! ## Arguments -/

/-- What is wrong with an argument or a directive. -/
inductive Problem
  | notNumber
  | partlyNumber
  | outOfRange
  | noDirective
  deriving DecidableEq, Repr

/-- The digits of a base in front of some octets. -/
def digitsOf (base : Nat) (cs : Octets) : Octets :=
  cs.takeWhile fun c => (Text.hexDigit? c).any fun n => decide (n < base)

def numberOf (base : Nat) (cs : Octets) : Nat :=
  cs.foldl (fun n c => n * base + (Text.hexDigit? c).getD 0) 0

/-- The integer in front of some octets, and the octets behind it; none if there is none. -/
def leadingInteger? (cs : Octets) : Option (Int × Octets) :=
  let cs := cs.dropWhile isLayout
  let (isNegative, cs) := match cs with
    | '-' :: ds => (true, ds)
    | '+' :: ds => (false, ds)
    | ds => (false, ds)
  let (base, ds) := match cs with
    | '0' :: x :: ds =>
      if (x = 'x' || x = 'X') && !(digitsOf 16 ds).isEmpty then (16, ds) else (8, cs)
    | ds => (10, ds)
  let own := digitsOf base ds
  if own.isEmpty then none
  else
    let n : Int := numberOf base own
    some (if isNegative then -n else n, ds.drop own.length)

def maxInteger : Int := 9223372036854775807

/-- The integer that an argument denotes, and what is wrong with it; behind a quotation mark it is the
number of an octet. -/
def integer (arg : Octets) : Int × Option Problem :=
  match arg with
  | [] => (0, none)
  | '\x27' :: cs | '"' :: cs => ((cs.head?.map Char.toNat).getD 0 |> Int.ofNat, none)
  | cs =>
    match leadingInteger? cs with
    | none => (0, some .notNumber)
    | some (n, rest) =>
      if maxInteger < n then (maxInteger, some .outOfRange)
      else if n < -maxInteger - 1 then (-maxInteger - 1, some .outOfRange)
      else (n, if rest.isEmpty then none else some .partlyNumber)

/-- The floating point number that an argument denotes, and what is wrong with it: the longest start
of the argument that is a number counts. -/
def float (arg : Octets) : Float × Option Problem :=
  let cs := arg.dropWhile isLayout
  let starts := (List.range (cs.length + 1)).reverse.map cs.take
  if arg.isEmpty then (0, none)
  else
    match starts.findSome? fun s => (Number.float? s).map (·, s.length) with
    | none => (0, some .notNumber)
    | some (x, n) => (x, if n = cs.length then none else some .partlyNumber)

/-! ## Filling in -/

def pad (d : Directive) (width : Nat) (zeros : Bool) (cs : Octets) : Octets :=
  let gap := width - cs.length
  if d.leftward then cs ++ List.replicate gap ' '
  else if zeros then
    match cs with
    | '-' :: ds => '-' :: List.replicate gap '0' ++ ds
    | '+' :: ds => '+' :: List.replicate gap '0' ++ ds
    | ds => List.replicate gap '0' ++ ds
  else List.replicate gap ' ' ++ cs

def inBase (base : Nat) (n : Int) : Octets :=
  Nat.toDigits base (if 0 ≤ n then n.toNat else (18446744073709551616 + n).toNat)

/-- The digits of an integer without sign, in the base of a directive. -/
def digitsFor (d : Directive) (n : Int) : Octets :=
  match d.kind with
  | 'o' => (if d.marksBase && n ≠ 0 then ['0'] else []) ++ inBase 8 n
  | 'x' => (if d.marksBase && n ≠ 0 then ['0', 'x'] else []) ++ inBase 16 n
  | 'X' => (if d.marksBase && n ≠ 0 then ['0', 'X'] else []) ++ (inBase 16 n).map Char.toUpper
  | 'u' => inBase 10 n
  | _ => Nat.toDigits 10 n.natAbs

/-- A floating point number as a directive shows it. -/
def floatFor (d : Directive) (places : Option Nat) (x : Float) : Octets :=
  let lower : String := match d.kind.toLower with
    | 'e' => Number.writeScientific (places.getD 6) x
    | 'g' => Number.writeBrief (places.getD 6) x
    | _ => Number.writeFixed (places.getD 6) x
  if d.kind.isUpper then lower.toList.map Char.toUpper else lower.toList

/-- How an argument is shown. -/
structure Filled where
  octets : Octets
  problem : Option Problem
  /-- All output ends here. -/
  ends : Bool

def fill (d : Directive) (width : Nat) (places : Option Nat) (arg : Octets) : Filled :=
  let signed (isNegative : Bool) (cs : Octets) : Octets :=
    if isNegative then '-' :: cs else d.sign.toList ++ cs
  if d.kind = 's' then
    ⟨pad d width false ((places.map arg.take).getD arg), none, false⟩
  else if d.kind = 'b' then
    let (cs, ends) := unescape false arg.length arg
    ⟨pad d width false ((places.map cs.take).getD cs), none, ends⟩
  else if d.kind = 'c' then
    ⟨pad d width false (if arg.isEmpty then ['\x00'] else arg.take 1), none, false⟩
  else if "eEfFgG".toList.contains d.kind then
    let (x, problem) := float arg
    let cs := floatFor d places x
    let cs := if cs.head? = some '-' then cs else signed false cs
    ⟨pad d width d.zeros cs, problem, false⟩
  else
    let (n, problem) := integer arg
    let ds := digitsFor d n
    let ds := List.replicate ((places.getD 0) - ds.length) '0' ++ ds
    let isSigned := d.kind = 'd' || d.kind = 'i'
    let cs := if isSigned then signed (n < 0) ds else ds
    ⟨pad d width (d.zeros && places.isNone) cs, problem, false⟩

/-- What has been shown of a format. -/
structure Progress where
  octets : Octets
  left : List Octets
  /-- What is wrong, with the argument or directive. -/
  problems : List (Octets × Problem)
  ends : Bool

/-- A measure with the argument that may give it. -/
def Measure.value (m : Measure) (args : List Octets) : Int × List Octets :=
  match m with
  | .fixed n => (n, args)
  | .given => ((integer (args.head?.getD [])).1, args.tail)

/-- Fills the directives of pieces with arguments; missing ones are empty. -/
def fillAll : List Piece → List Octets → Progress
  | [], args => ⟨[], args, [], false⟩
  | .plain c :: ps, args =>
    let p := fillAll ps args
    { p with octets := c :: p.octets }
  | .wrong cs :: _, args => ⟨[], args, [(cs, .noDirective)], true⟩
  | .directive d :: ps, args =>
    let (width, args) := d.width.value args
    let (places, args) := match d.places with
      | none => (none, args)
      | some m =>
        let (n, args) := m.value args
        (if n < 0 then none else some n.toNat, args)
    let d := if width < 0 then { d with leftward := true } else d
    let arg := args.head?.getD []
    let f := fill d width.natAbs places arg
    let problems := f.problem.toList.map (arg, ·)
    if f.ends then ⟨f.octets, args.tail, problems, true⟩
    else
      let p := fillAll ps args.tail
      { p with octets := f.octets ++ p.octets, problems := problems ++ p.problems }

/-- Uses a format again and again until no argument is left. -/
def format (ps : List Piece) : Nat → List Octets → Progress
  | 0, args => ⟨[], args, [], false⟩
  | fuel + 1, args =>
    let p := fillAll ps args
    if p.ends || p.left.isEmpty || p.left.length == args.length then p
    else
      let more := format ps fuel p.left
      { more with octets := p.octets ++ more.octets, problems := p.problems ++ more.problems }

end Punctual.Shell.Written
