import Punctual.Json.Value
import Punctual.Shell.Record.Value

/-!
# Words of record programs

A program is read word by word. A slash starts a regular expression where an operand may stand, and
divides elsewhere. Line feeds are words of their own.
-/

namespace Punctual.Shell.Record

/-- A word of a program. -/
inductive Token
  | newline
  /-- An operator, a parenthesis or a separator. -/
  | mark (s : String)
  /-- A word with a meaning of its own. -/
  | keyword (s : String)
  | name (s : String)
  /-- A name right in front of a parenthesis. -/
  | callee (s : String)
  | known (f : Known)
  | number (x : Float)
  | text (cs : Octets)
  | regex (cs : Octets)
  | stop
  deriving BEq

/-- A word where it stands. -/
structure Located where
  token : Token
  /-- The word as it is shown in reports. -/
  shown : String
  line : Nat
  /-- How many parentheses and braces are open in front of it. -/
  parens : Nat
  braces : Nat

/-- What is said about a program that cannot be read. -/
structure Fault where
  report : String

def Fault.inLine (line : Nat) (report : String) : Fault :=
  ⟨"line " ++ toString line ++ ": " ++ report⟩

namespace Token

def keywords : List String :=
  ["BEGIN", "END", "function", "func", "getline", "if", "else", "while", "for", "do", "break",
    "continue", "next", "nextfile", "exit", "return", "delete", "in", "print", "printf"]

/-- The functions that every program knows, by their names. -/
def knownFunctions : List (String × Known) :=
  [("length", .length), ("substr", .substr), ("index", .index), ("split", .split),
    ("sub", .replace false), ("gsub", .replace true), ("match", .match), ("sprintf", .format),
    ("sin", .sin), ("cos", .cos), ("atan2", .atan2), ("exp", .exp), ("log", .log),
    ("sqrt", .sqrt), ("int", .int), ("rand", .random), ("srand", .seed), ("toupper", .upper),
    ("tolower", .lower), ("system", .run), ("close", .close), ("fflush", .flush)]

/-- The operators and separators, longer ones first. -/
def marks : List String :=
  ["&&", "||", "==", "!=", "<=", ">=", "!~", ">>", "++", "--", "+=", "-=", "*=", "/=", "%=", "^=",
    "\x7b", "\x7d", "(", ")", "[", "]", ";", ",", "+", "-", "*", "/", "%", "^", "!", "<", ">", "|",
    "?", ":", "~", "$", "="]

/-- An operand ends with the word, so that a slash behind it divides. -/
def endsOperand : Token → Bool
  | name _ | number _ | text _ | regex _ => true
  | known f => f == .length
  | mark s => [")", "]", "$", "++", "--"].contains s
  | _ => false

/-- What a backslash and the octets behind it stand for in a text, and the octets behind that. -/
def escape (cs : Octets) : Octets × Octets :=
  match cs with
  | [] => (['\\'], [])
  | c :: rest =>
    if c = '"' then ([c], rest)
    else if c = '\n' then ([], rest)
    else
      match Written.numbered? true cs, Written.letter? c with
      | some (d, rest), _ => ([d], rest)
      | none, some d => if c = 'e' then (['\\', c], rest) else ([d], rest)
      | none, none => (['\\', c], rest)

/-- The octets of a text up to a quotation mark, and the octets behind that. -/
def textUpTo : Nat → Octets → Option (Octets × Octets)
  | 0, _ | _, [] | _, '\n' :: _ => none
  | _, '"' :: rest => some ([], rest)
  | fuel + 1, '\\' :: cs =>
    let (own, rest) := escape cs
    (textUpTo fuel rest).map fun (more, rest) => (own ++ more, rest)
  | fuel + 1, c :: cs => (textUpTo fuel cs).map fun (more, rest) => (c :: more, rest)

/-- The octets of a value that is given as the source of a text would be. -/
def escaped : Nat → Octets → Octets
  | 0, _ | _, [] => []
  | fuel + 1, '\\' :: cs =>
    let (own, rest) := escape cs
    own ++ escaped fuel rest
  | fuel + 1, c :: cs => c :: escaped fuel cs

/-- The octets of an expression up to a slash that is not in brackets, and the octets behind that. -/
def regexUpTo (inBrackets : Bool) : Octets → Option (Octets × Octets)
  | [] | '\n' :: _ => none
  | '\\' :: c :: cs =>
    (regexUpTo inBrackets cs).map fun (more, rest) =>
      (if c = '/' then c :: more else '\\' :: c :: more, rest)
  | c :: cs =>
    if c = '/' && !inBrackets then some ([], cs)
    else
      let isFirst := c = '[' && !inBrackets
      match isFirst, cs with
      | true, '^' :: ']' :: cs =>
        (regexUpTo true cs).map fun (more, rest) => ('[' :: '^' :: ']' :: more, rest)
      | true, ']' :: cs => (regexUpTo true cs).map fun (more, rest) => ('[' :: ']' :: more, rest)
      | _, cs =>
        (regexUpTo (isFirst || (inBrackets && c ≠ ']')) cs).map fun (more, rest) =>
          (c :: more, rest)

/-- A number in front of octets, and the octets behind it. -/
def numeral (cs : Octets) : Float × Octets :=
  numberInFront.decimal cs false cs

def isNameOctet (c : Char) : Bool :=
  c.isAlphanum || c == '_'

def ofName (name : String) (rest : Octets) : Token :=
  if keywords.contains name then .keyword (if name = "func" then "function" else name)
  else
    match find? name knownFunctions with
    | some f => .known f
    | none => if rest.head? = some '(' then .callee name else .name name

/-- How far a program has been read. -/
structure Progress where
  line : Nat
  parens : Nat
  braces : Nat
  /-- The last word. -/
  last : Token

def Progress.behind (p : Progress) (t : Token) : Progress :=
  match t with
  | .newline => { p with line := p.line + 1, last := t }
  | .mark "(" => { p with parens := p.parens + 1, last := t }
  | .mark ")" => { p with parens := p.parens - 1, last := t }
  | .mark "\x7b" => { p with braces := p.braces + 1, last := t }
  | .mark "\x7d" => { p with braces := p.braces - 1, last := t }
  | t => { p with last := t }

/-- The octets of a program that are left in a line, as far as they are shown. -/
def remains (cs : Octets) : String :=
  Octets.toText ((cs.takeWhile (· ≠ '\n')).take 10) ++ " ..."

/-- The first word of octets that start with none that is passed over, how it is shown, and the octets
behind it. -/
def first (p : Progress) (c : Char) (cs : Octets) : Except Fault (Token × String × Octets) :=
  if c = '\n' then .ok (.newline, "end of line", cs)
  else if c = '"' then
    match textUpTo (cs.length + 1) cs with
    | some (own, rest) => .ok (.text own, "\"" ++ Octets.toText own ++ "\"", rest)
    | none => .error (.inLine p.line ("runaway string constant \"" ++ remains cs))
  else if c = '/' && !p.last.endsOperand then
    match regexUpTo false cs with
    | some (own, rest) => .ok (.regex own, "/" ++ Octets.toText own ++ "/", rest)
    | none => .error (.inLine p.line ("runaway regular expression /" ++ remains cs))
  else if c.isDigit || (c = '.' && cs.head?.any Char.isDigit) then
    let (x, rest) := numeral (c :: cs)
    let own := (c :: cs).take (cs.length + 1 - rest.length)
    .ok (.number x, Octets.toText own, rest)
  else if isNameOctet c then
    let own := Octets.toText (c :: cs.takeWhile isNameOctet)
    let rest := cs.dropWhile isNameOctet
    .ok (ofName own rest, own, rest)
  else
    match marks.find? fun s => s.toList.isPrefixOf (c :: cs) with
    | some s => .ok (.mark s, s, (c :: cs).drop s.length)
    | none => .error ⟨toString p.line ++ ": unexpected character '" ++ Octets.toText [c] ++ "'"⟩

def ofOctets (p : Progress) : Nat → Octets → Except Fault (List Located)
  | 0, _ | _, [] => .ok [⟨.stop, "end of line", p.line, p.parens, p.braces⟩]
  | fuel + 1, '\\' :: '\r' :: '\n' :: cs | fuel + 1, '\\' :: '\n' :: cs =>
    ofOctets { p with line := p.line + 1 } fuel cs
  | fuel + 1, c :: cs =>
    if c = ' ' || c = '\t' || c = '\r' then ofOctets p fuel cs
    else if c = '#' then ofOctets p fuel (cs.dropWhile (· ≠ '\n'))
    else do
      let (t, shown, rest) ← first p c cs
      if t == .mark ")" && p.parens = 0 then throw (.inLine p.line "extra ')'")
      if t == .mark "\x7d" && p.braces = 0 then throw (.inLine p.line "extra '\x7d'")
      let more ← ofOctets (p.behind t) fuel rest
      return ⟨t, shown, p.line, p.parens, p.braces⟩ :: more

end Token

def tokens (cs : Octets) : Except Fault (List Located) :=
  Token.ofOctets ⟨1, 0, 0, .newline⟩ (cs.length + 1) cs

end Punctual.Shell.Record
