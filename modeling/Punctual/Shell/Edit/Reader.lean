import Punctual.Shell.Edit.Basic
import Punctual.Shell.Written

/-!
# Reading edits

A command is an address, if it is not for all lines, a letter, and what the letter asks for. Blanks,
line feeds and semicolons stand between commands.
-/

namespace Punctual.Shell.Edit

/-- What is wrong with an edit, and how many octets are left behind the place where it is wrong; none
if the edit as a whole is wrong. -/
structure Fault where
  left : Option Nat
  text : String

abbrev Reading (α : Type) := Except Fault α

def fault {α : Type} (rest : Octets) (text : String) : Reading α :=
  .error ⟨some rest.length, text⟩

def quoted (c : Char) : String :=
  "\x60" ++ Octets.toText [c] ++ "'"

/-! ## Texts -/

/-- Where a place is in the brackets of an expression. -/
inductive Bracketed
  | outside
  /-- Right behind the first bracket, or behind the circumflex there. -/
  | front
  | behindCircumflex
  | body
  /-- In a class, which a bracket behind a mark ends. -/
  | named (mark : Char)

/-- The place behind an octet in brackets; `next` follows it. -/
def Bracketed.step (b : Bracketed) (c : Char) (next : Option Char) : Bracketed :=
  match b with
  | .outside => if c = '[' then .front else .outside
  | .front => if c = '^' then .behindCircumflex else .body
  | .behindCircumflex => .body
  | .body =>
    if c = ']' then .outside
    else if c = '[' then
      match next with
      | some m => if m = ':' || m = '.' || m = '=' then .named m else .body
      | none => .body
    else .body
  | .named m => if c = m && next == some ']' then .body else .named m

/-- The octets of an expression up to a mark that no backslash precedes and that is not in brackets,
and those behind it. A backslash in front of the mark is dropped. -/
def expressionUpTo (mark : Char) (b : Bracketed) : Octets → Option (Octets × Octets)
  | [] => none
  | '\n' :: _ => none
  | c :: cs =>
    match b, c, cs with
    | .outside, '\\', d :: cs =>
      (expressionUpTo mark b cs).map fun (a, rest) =>
        (if d = mark then d :: a else '\\' :: d :: a, rest)
    | .outside, c, cs =>
      if c = mark then some ([], cs)
      else (expressionUpTo mark (b.step c cs.head?) cs).map fun (a, rest) => (c :: a, rest)
    | b, c, cs =>
      (expressionUpTo mark (b.step c cs.head?) cs).map fun (a, rest) => (c :: a, rest)

/-- The octets up to a mark that no backslash precedes, and those behind it. A backslash in front
of the mark is dropped. -/
def upTo (mark : Char) : Octets → Option (Octets × Octets)
  | [] => none
  | '\n' :: _ => none
  | '\\' :: c :: cs =>
    (upTo mark cs).map fun (a, rest) => (if c = mark && c ≠ '&' then c :: a else '\\' :: c :: a, rest)
  | c :: cs =>
    if c = mark then some ([], cs) else (upTo mark cs).map fun (a, rest) => (c :: a, rest)

/-- The octet that a letter behind a backslash stands for. -/
def escape? (c : Char) : Option Char :=
  match c with
  | 'a' => some '\x07'
  | 'f' => some '\x0c'
  | 'n' => some '\n'
  | 'r' => some '\r'
  | 't' => some '\t'
  | 'v' => some '\x0b'
  | _ => none

/-- The digits of a number in some base, at most so many, as an octet, and the rest. -/
def coded? (base count : Nat) (cs : Octets) : Option (Char × Octets) :=
  let value (c : Char) : Nat :=
    if c.isDigit then c.toNat - 0x30
    else if 'a' ≤ c ∧ c ≤ 'f' then c.toNat - 0x57
    else if 'A' ≤ c ∧ c ≤ 'F' then c.toNat - 0x37
    else base
  let ds := (cs.take count).takeWhile fun c => value c < base
  if ds.isEmpty then none
  else some (.ofNat (ds.foldl (fun n c => n * base + value c) 0 % 256), cs.drop ds.length)

/-- An octet that is written by its number, behind the backslash. -/
def numbered? : Octets → Option (Char × Octets)
  | 'x' :: cs => coded? 16 2 cs
  | 'o' :: cs => coded? 8 3 cs
  | 'd' :: cs => coded? 10 3 cs
  | _ => none

/-- An expression in which escapes of line feeds and the like are the octets they stand for. -/
def plainEscapes : Nat → Octets → Octets
  | 0, cs => cs
  | fuel + 1, cs =>
    match cs with
    | '\\' :: c :: cs =>
      match escape? c, numbered? (c :: cs) with
      | some e, _ => e :: plainEscapes fuel cs
      | none, some (e, rest) =>
        (if e.isAlphanum then [e] else ['\\', e]) ++ plainEscapes fuel rest
      | none, none => '\\' :: c :: plainEscapes fuel cs
    | c :: cs => c :: plainEscapes fuel cs
    | [] => []

/-- The expression of a text; an empty text stands for the last one used. -/
def regex (d : Regex.Dialect) (anyCase : Bool) (text rest : Octets) : Reading (Option Regex) :=
  if text.isEmpty then .ok none
  else
    let cs := plainEscapes text.length text
    match Regex.parse d anyCase cs with
    | .ok p => .ok (some p.regex)
    | .error .classOutside => .error ⟨none, Regex.Flaw.classOutside.message⟩
    | .error f => fault rest f.message

def newPieces : Nat → Octets → List NewPiece
  | 0, _ => []
  | fuel + 1, cs =>
    match cs with
    | [] => []
    | '\\' :: c :: cs =>
      match c with
      | 'U' => .turn .upper :: newPieces fuel cs
      | 'L' => .turn .lower :: newPieces fuel cs
      | 'E' => .turn .keep :: newPieces fuel cs
      | 'u' => .turn .nextUpper :: newPieces fuel cs
      | 'l' => .turn .nextLower :: newPieces fuel cs
      | c =>
        if c.isDigit then .group (c.toNat - 0x30) :: newPieces fuel cs
        else
          match escape? c, numbered? (c :: cs) with
          | some e, _ => .plain e :: newPieces fuel cs
          | none, some (e, rest) => .plain e :: newPieces fuel rest
          | none, none => .plain c :: newPieces fuel cs
    | c :: cs => (if c = '&' then .group 0 else .plain c) :: newPieces fuel cs

def letters : Octets → Octets
  | '\\' :: c :: cs =>
    (if c = '\\' then [c] else match escape? c with
      | some e => [e]
      | none => ['\\', c]) ++ letters cs
  | c :: cs => c :: letters cs
  | [] => []

/-- A text up to the end of its line; a backslash takes the next octet as it is. -/
def textLine : Octets → Octets × Octets
  | [] => ([], [])
  | ['\\'] => ([], [])
  | '\\' :: c :: cs =>
    let (out, rest) := textLine cs
    ((escape? c).getD c :: out, rest)
  | '\n' :: cs => ([], cs)
  | c :: cs =>
    let (out, rest) := textLine cs
    (c :: out, rest)

/-! ## Addresses -/

/-- A number, if there is one, and the octets behind it. -/
def number? (cs : Octets) : Option (Nat × Octets) :=
  let ds := cs.takeWhile Char.isDigit
  if ds.isEmpty then none else some (Text.natOfDigits ds, cs.drop ds.length)

/-- An address with an expression between marks. -/
def expressionAddress (d : Regex.Dialect) (mark : Char) (cs : Octets) :
    Reading (Address × Octets) := do
  match expressionUpTo mark .outside cs with
  | none => fault [] "unterminated address regex"
  | some (text, rest) =>
    let flags := rest.takeWhile fun c => c = 'I' || c = 'M'
    let rest := rest.drop flags.length
    return (.matching (← regex d (flags.contains 'I') text rest), rest)

/-- An address, if there is one, and the octets behind it. -/
def address (d : Regex.Dialect) (cs : Octets) : Reading (Option Address × Octets) := do
  match cs with
  | '$' :: rest => return (some .last, rest)
  | '/' :: rest =>
    let (a, rest) ← expressionAddress d '/' rest
    return (some a, rest)
  | '\\' :: mark :: rest =>
    let (a, rest) ← expressionAddress d mark rest
    return (some a, rest)
  | cs =>
    match number? cs with
    | none => return (none, cs)
    | some (n, rest) =>
      match rest with
      | '~' :: rest =>
        let (step, rest) := (number? rest).getD (0, rest)
        return (some (.stepped n step), rest)
      | rest => return (some (.number n), rest)

/-- The end of a range, if there is one, and the octets behind it. -/
def rangeEnd (d : Regex.Dialect) (cs : Octets) : Reading (Option RangeEnd × Octets) := do
  match cs with
  | '+' :: rest =>
    match number? rest with
    | some (n, rest) => return (some (.behind n), rest)
    | none => return (none, cs)
  | '~' :: rest =>
    match number? rest with
    | some (n, rest) => return (some (.multiple n), rest)
    | none => return (none, cs)
  | cs =>
    let (a, rest) ← address d cs
    return (a.map .at, rest)

/-- The lines that a command is for, and the octets behind them. -/
def lines (d : Regex.Dialect) (cs : Octets) : Reading (Lines × Octets) := do
  match ← address d cs with
  | (none, rest) => return (.all, rest)
  | (some a, rest) =>
    match rest.dropWhile isSpace with
    | ',' :: behind =>
      match ← rangeEnd d (behind.dropWhile isSpace) with
      | (some e, rest) => return (.between a e, rest)
      | (none, rest) => fault (rest.drop 1) "unexpected \x60,'"
    | _ => return (.at a, rest)

/-- Line zero stands only in front of the end of a range that an expression gives. -/
def startsBadly : Lines → Bool
  | .at (.number 0) => true
  | .between (.number 0) (.at (.matching _)) => false
  | .between (.number 0) _ => true
  | _ => false

/-! ## Commands -/

/-- The flags of a replacement. -/
structure ReplaceFlags where
  onwards : Bool
  prints : Bool
  anyCase : Bool
  first : Option Nat
  target : Option Octets

def replaceFlags (f : ReplaceFlags) : Nat → Octets → Reading (ReplaceFlags × Octets)
  | 0, cs => .ok (f, cs)
  | fuel + 1, cs =>
    match cs with
    | 'g' :: rest =>
      if f.onwards then fault rest "multiple \x60g' options to \x60s' command"
      else replaceFlags { f with onwards := true } fuel rest
    | 'p' :: rest =>
      if f.prints then fault rest "multiple \x60p' options to \x60s' command"
      else replaceFlags { f with prints := true } fuel rest
    | 'i' :: rest | 'I' :: rest => replaceFlags { f with anyCase := true } fuel rest
    | 'm' :: rest | 'M' :: rest => replaceFlags f fuel rest
    | 'w' :: rest =>
      let path := (rest.dropWhile isSpace).takeWhile (· ≠ '\n')
      if path.isEmpty then fault rest "missing filename in r/R/w/W commands"
      else .ok ({ f with target := some path }, (rest.dropWhile isSpace).drop path.length)
    | c :: rest =>
      match number? cs with
      | some (0, rest) => fault rest "number option to \x60s' command may not be zero"
      | some (n, rest) =>
        if f.first.isSome then fault rest "multiple number options to \x60s' command"
        else replaceFlags { f with first := some n } fuel rest
      | none =>
        if isLayout c || c = ';' || c = '\x7d' || c = '#' then .ok (f, cs)
        else fault rest "unknown option to \x60s'"
    | [] => .ok (f, [])

def replacement (d : Regex.Dialect) (cs : Octets) : Reading (Change × Octets) := do
  match cs with
  | [] => fault [] "unterminated \x60s' command"
  | mark :: rest =>
    match (expressionUpTo mark .outside rest).bind fun (old, rest) =>
        (upTo mark rest).map fun (new, rest) => (old, new, rest) with
    | none => fault [] "unterminated \x60s' command"
    | some (old, new, rest) =>
      let (f, rest) ← replaceFlags ⟨false, false, false, none, none⟩ (rest.length + 1) rest
      let r ← regex d f.anyCase old rest
      let pieces := newPieces new.length new
      let greatest := (pieces.map fun
        | .group n => n
        | _ => 0).foldl max 0
      if r.any fun r => decide (Regex.groupCount r < greatest) then
        fault rest ("invalid reference \\" ++ toString greatest ++ " on \x60s' command's RHS")
      else
        return (.replace ⟨r, pieces, f.first.getD 1, f.onwards, f.prints, f.target⟩, rest)

def translation (cs : Octets) : Reading (Change × Octets) := do
  match cs with
  | [] => fault [] "unterminated \x60y' command"
  | mark :: rest =>
    match (upTo mark rest).bind fun (old, rest) =>
        (upTo mark rest).map fun (new, rest) => (letters old, letters new, rest) with
    | none => fault [] "unterminated \x60y' command"
    | some (old, new, rest) =>
      if old.length ≠ new.length then
        fault rest "strings for \x60y' command are different lengths"
      else return (.translate (old.zip new), rest)

def insertion (make : Octets → Change) (cs : Octets) : Reading (Change × Octets) := do
  match cs.dropWhile isSpace with
  | [] => fault cs "expected \\ after \x60a', \x60c' or \x60i'"
  | '\\' :: rest =>
    let behind := rest.dropWhile isSpace
    let start := match behind with
      | '\n' :: rest => rest
      | _ => rest
    let (text, rest) := textLine start
    return (make (text ++ if start.isEmpty then [] else ['\n']), rest)
  | start =>
    let (text, rest) := textLine start
    return (make (text ++ ['\n']), rest)

/-- A word behind a letter: the name of a label. -/
def labelName (cs : Octets) : Octets × Octets :=
  let cs := cs.dropWhile isSpace
  let isPart (c : Char) : Bool := !(isLayout c || c = ';' || c = '\x7d')
  (cs.takeWhile isPart, cs.dropWhile isPart)

/-- The rest of the line as the name of a file. -/
def fileName (make : Octets → Change) (cs : Octets) : Reading (Change × Octets) :=
  let path := (cs.dropWhile isSpace).takeWhile (· ≠ '\n')
  if path.isEmpty then fault cs "missing filename in r/R/w/W commands"
  else .ok (make path, (cs.dropWhile isSpace).drop path.length)

/-- The number behind a letter, and the octets behind it. -/
def countBehind (default : Nat) (cs : Octets) : Nat × Octets :=
  (number? (cs.dropWhile isSpace)).getD (default, cs)

def change (d : Regex.Dialect) (c : Char) (cs : Octets) : Reading (Change × Octets) :=
  match c with
  | 's' => replacement d cs
  | 'y' => translation cs
  | 'a' => insertion .after cs
  | 'i' => insertion .before cs
  | 'c' => insertion .instead cs
  | 'r' => fileName .read cs
  | 'w' => fileName .write cs
  | 'W' => fileName .writeFirst cs
  | ':' =>
    let cs := cs.dropWhile isSpace
    let name := cs.takeWhile fun c => !(isLayout c || c = ';')
    if name.isEmpty then fault cs "\":\" lacks a label" else .ok (.label name, cs.drop name.length)
  | 'b' =>
    let (name, rest) := labelName cs
    .ok (.jump name, rest)
  | 't' =>
    let (name, rest) := labelName cs
    .ok (.jumpIf true name, rest)
  | 'T' =>
    let (name, rest) := labelName cs
    .ok (.jumpIf false name, rest)
  | 'q' =>
    let (n, rest) := countBehind 0 cs
    .ok (.quit true n, rest)
  | 'Q' =>
    let (n, rest) := countBehind 0 cs
    .ok (.quit false n, rest)
  | 'l' =>
    let (n, rest) := countBehind 70 cs
    .ok (.show n, rest)
  | '\x7b' => .ok (.opening, cs)
  | '\x7d' => .ok (.closing, cs)
  | 'p' => .ok (.print, cs)
  | 'P' => .ok (.printFirst, cs)
  | 'd' => .ok (.drop, cs)
  | 'D' => .ok (.dropFirst, cs)
  | 'z' => .ok (.clear, cs)
  | '=' => .ok (.number, cs)
  | 'F' => .ok (.name, cs)
  | 'n' => .ok (.next, cs)
  | 'N' => .ok (.join, cs)
  | 'h' => .ok (.store, cs)
  | 'H' => .ok (.storeMore, cs)
  | 'g' => .ok (.fetch, cs)
  | 'G' => .ok (.fetchMore, cs)
  | 'x' => .ok (.exchange, cs)
  | 'v' => .ok (.nothing, cs.dropWhile fun c => c ≠ '\n' && c ≠ ';')
  | c => fault cs ("unknown command: " ++ quoted c)

def endsItself : Change → Bool
  | .opening | .after _ | .before _ | .instead _ => true
  | _ => false

def isBetween (c : Char) : Bool :=
  isLayout c || c == ';'

/-- The octets without blanks and comments in front. -/
def skipped : Nat → Octets → Octets
  | 0, cs => cs
  | fuel + 1, cs =>
    match cs.dropWhile isBetween with
    | '#' :: rest => skipped fuel (rest.dropWhile (· ≠ '\n'))
    | cs => cs

/-- What stands behind a command, if another one may follow. -/
def behindCommand (change : Change) (cs : Octets) : Reading Octets :=
  if endsItself change then .ok cs
  else
    match cs.dropWhile isSpace with
    | [] => .ok []
    | c :: rest =>
      if isBetween c || c = '\x7d' || c = '#' then .ok (c :: rest)
      else fault rest "extra characters after command"

/-- The commands of an edit; `depth` counts the blocks that are open. -/
def commands (d : Regex.Dialect) (depth : Nat) : Nat → Octets → Reading (List EditCommand)
  | 0, _ => .ok []
  | fuel + 1, cs => do
    match skipped (cs.length + 1) cs with
    | [] => if depth = 0 then return [] else .error ⟨none, "unmatched \x60\x7b'"⟩
    | cs =>
      let (ls, rest) ← lines d cs
      let (inverted, rest) ← match rest.dropWhile isSpace with
        | '!' :: rest =>
          match rest.dropWhile isSpace with
          | '!' :: rest => fault rest "multiple \x60!'s"
          | rest => .ok (true, rest)
        | rest => .ok (false, rest)
      match rest with
      | [] => fault [] "missing command"
      | c :: rest =>
        if startsBadly ls then fault rest "invalid usage of line address 0"
        else
          let (change, behind) ← change d c rest
          match change, depth with
          | .closing, 0 => fault rest "unexpected \x60\x7d'"
          | .closing, depth + 1 =>
            let behind ← behindCommand change behind
            return ⟨ls, inverted, change⟩ :: (← commands d depth fuel behind)
          | .opening, depth =>
            return ⟨ls, inverted, change⟩ :: (← commands d (depth + 1) fuel behind)
          | change, depth =>
            let behind ← behindCommand change behind
            return ⟨ls, inverted, change⟩ :: (← commands d depth fuel behind)

/-- The labels to which an edit jumps and that it does not have. -/
def missingLabels (cmds : List EditCommand) : List Octets :=
  let known := cmds.filterMap fun c => match c.change with
    | .label n => some n
    | _ => none
  let wanted := cmds.filterMap fun c => match c.change with
    | .jump n | .jumpIf _ n => if n.isEmpty then none else some n
    | _ => none
  wanted.filter fun n => !known.contains n

def parse (d : Regex.Dialect) (cs : Octets) : Reading (List EditCommand) :=
  commands d 0 (cs.length + 1) cs

end Punctual.Shell.Edit
