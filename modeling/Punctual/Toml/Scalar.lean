import Punctual.Json.Value
import Punctual.Number.Binary64
import Punctual.Number.Range
import Punctual.Number.Read
import Punctual.Text.Hex
import Punctual.Text.Search
import Punctual.Toml.Moment

/-!
# Scalars of settings files

Texts, numbers, truth values and dates as they stand in a settings file in the TOML format. A
reader takes characters from the front of a list and gives back the rest, or fails; a file with a
flaw is refused as a whole, so no cause is kept.
-/

namespace Punctual.Toml

/-- Takes a value from the front of some characters. -/
abbrev Take (α : Type) := List Char → Option (α × List Char)

def isSpace (c : Char) : Bool :=
  c == ' ' || c == '\t'

def skipSpaces (cs : List Char) : List Char :=
  cs.dropWhile isSpace

/-- A character that texts and comments cannot hold. -/
def isControl (c : Char) : Bool :=
  (c.toNat < 0x20 && c != '\t') || c == '\x7F'

/-- A line break at the front of some characters, and the rest. -/
def lineBreak? : List Char → Option (List Char)
  | '\n' :: cs => some cs
  | '\r' :: '\n' :: cs => some cs
  | _ => none

/-! ## Texts -/

/-- The character of a code point, unless it is half of a surrogate pair. -/
def charOf? (n : Nat) : Option Char :=
  if n.isValidChar then some (.ofNat n) else none

def hex? (cs : List Char) : Option Nat := do
  let ds ← cs.mapM Text.hexDigit?
  return ds.foldl (fun n d => n * 16 + d) 0

/-- The character whose code point is written with `width` hexadecimal digits. -/
def coded? (width : Nat) (cs : List Char) : Option (Char × List Char) := do
  if cs.length < width then none
  return (← charOf? (← hex? (cs.take width)), cs.drop width)

/-- The character of an escape, without its backslash. -/
def escape? : Take Char
  | 'b' :: cs => some ('\x08', cs)
  | 't' :: cs => some ('\t', cs)
  | 'n' :: cs => some ('\n', cs)
  | 'f' :: cs => some ('\x0C', cs)
  | 'r' :: cs => some ('\r', cs)
  | 'e' :: cs => some ('\x1B', cs)
  | '"' :: cs => some ('"', cs)
  | '\\' :: cs => some ('\\', cs)
  | 'x' :: cs => coded? 2 cs
  | 'u' :: cs => coded? 4 cs
  | 'U' :: cs => coded? 8 cs
  | _ => none

/-- A text between quotation marks, behind the first one. -/
def basicText : Nat → Take (List Char)
  | 0, _ => none
  | _ + 1, [] => none
  | fuel + 1, c :: cs =>
    if c = '"' then some ([], cs)
    else if c = '\\' then do
      let (d, rest) ← escape? cs
      let (ds, rest) ← basicText fuel rest
      return (d :: ds, rest)
    else if isControl c then none
    else do
      let (ds, rest) ← basicText fuel cs
      return (c :: ds, rest)

/-- A text between apostrophes, behind the first one. -/
def literalText : Take (List Char)
  | [] => none
  | c :: cs =>
    if c = '\'' then some ([], cs)
    else if isControl c then none
    else do
      let (ds, rest) ← literalText cs
      return (c :: ds, rest)

/-- A closing mark of three quotes; up to two more in front of it belong to the text. -/
def closing? (quote : Char) (cs : List Char) : Option (List Char × List Char) :=
  let run := (cs.takeWhile (· = quote)).length
  if run < 3 then none
  else
    let inside := min (run - 3) 2
    some (List.replicate inside quote, cs.drop (inside + 3))

/-- The characters without blanks and line breaks in front. -/
def skipWhite : Nat → List Char → List Char
  | 0, cs => cs
  | fuel + 1, cs =>
    match lineBreak? (skipSpaces cs) with
    | some rest => skipWhite fuel rest
    | none => skipSpaces cs

/-- The characters behind blanks and line breaks, if there is a line break among them. -/
def skipFold (cs : List Char) : Option (List Char) :=
  (lineBreak? (skipSpaces cs)).map fun rest => skipWhite rest.length rest

/-- A text of several lines between marks of three quotes, behind the first mark. Escapes are read
if `escaped`; a backslash at the end of a line folds what follows. Line breaks are kept as they
are. -/
def longText (quote : Char) (escaped : Bool) : Nat → Take (List Char)
  | 0, _ => none
  | _ + 1, [] => none
  | fuel + 1, c :: cs =>
    match closing? quote (c :: cs), lineBreak? (c :: cs) with
    | some closed, _ => some closed
    | none, some rest => do
      let (ds, rest') ← longText quote escaped fuel rest
      return ((c :: cs).take (cs.length + 1 - rest.length) ++ ds, rest')
    | none, none =>
      if escaped && c == '\\' then
        match skipFold cs with
        | some rest => longText quote escaped fuel rest
        | none => do
          let (d, rest) ← escape? cs
          let (ds, rest) ← longText quote escaped fuel rest
          return (d :: ds, rest)
      else if isControl c then none
      else do
        let (ds, rest) ← longText quote escaped fuel cs
        return (c :: ds, rest)

def lineText : Take String
  | '"' :: cs => (basicText cs.length cs).map fun (s, rest) => (.ofList s, rest)
  | '\'' :: cs => (literalText cs).map fun (s, rest) => (.ofList s, rest)
  | _ => none

/-- A text of any form. A line break directly behind the opening mark is no part of it. -/
def text (cs : List Char) : Option (String × List Char) :=
  let long (quote : Char) (escaped : Bool) (rest : List Char) :=
    let body := (lineBreak? rest).getD rest
    (longText quote escaped body.length body).map fun (s, rest) => (String.ofList s, rest)
  match cs with
  | '"' :: '"' :: '"' :: rest => long '"' true rest
  | '\'' :: '\'' :: '\'' :: rest => long '\'' false rest
  | cs => lineText cs

/-! ## Numbers, truth values and dates -/

/-- The digits without the underscores between them; an underscore stands between two digits. -/
def digits? (isDigit : Char → Bool) (cs : List Char) : Option (List Char) :=
  let rec go : Bool → List Char → Option (List Char)
    | afterDigit, [] => if afterDigit then some [] else none
    | afterDigit, c :: cs =>
      if isDigit c then (go true cs).map (c :: ·)
      else if c = '_' ∧ afterDigit then
        match cs with
        | [] => none
        | d :: ds => if isDigit d then go false (d :: ds) else none
      else none
  go false cs

/-- The digits of a decimal number, which has no zero in front. -/
def decimal? (cs : List Char) : Option (List Char) := do
  let ds ← digits? Char.isDigit cs
  match ds with
  | '0' :: _ :: _ => none
  | ds => some ds

def fits? (n : Int) : Option Json.Value :=
  if Time.Fits n then some (.int n) else none

def based? : List Char → Option Json.Value
  | '0' :: 'x' :: cs => do fits? (← hex? (← digits? (fun c => (Text.hexDigit? c).isSome) cs))
  | '0' :: 'o' :: cs => do
    let ds ← digits? (fun c => '0' ≤ c && c ≤ '7') cs
    fits? (ds.foldl (fun n d => n * 8 + (d.toNat - 0x30)) 0 : Nat)
  | '0' :: 'b' :: cs => do
    let ds ← digits? (fun c => c == '0' || c == '1') cs
    fits? (ds.foldl (fun n d => n * 2 + (d.toNat - 0x30)) 0 : Nat)
  | _ => none

def integer? (cs : List Char) : Option Json.Value := do
  let (negative, rest) := Number.splitSign cs
  let n := Text.natOfDigits (← decimal? rest)
  fits? (if negative then -(n : Int) else n)

/-- The number that digits denote with a point before the last `places` of them and an exponent, if
it is finite. -/
def finite? (negative : Bool) (ds : List Char) (places : Nat) (exponent : Int) :
    Option Json.Value :=
  let x := Number.nearestFloat negative (Text.natOfDigits ds) (exponent - places)
  match Number.Binary64.ofFloat x with
  | .finite .. => some (.float x)
  | _ => none

def exponent? (cs : List Char) : Option Int := do
  let (below, ds) := Number.splitSign cs
  let n := Text.natOfDigits (← digits? Char.isDigit ds)
  return if below then -(n : Int) else n

/-- A floating point number: infinite, no number, or decimal with places or an exponent. -/
def float? (cs : List Char) : Option Json.Value :=
  let (negative, rest) := Number.splitSign cs
  if rest = "inf".toList ∨ rest = "nan".toList then (Number.float? cs).map .float
  else do
    let isMark (c : Char) := c == 'e' || c == 'E'
    let mantissa := rest.takeWhile fun c => !isMark c
    let behind := rest.dropWhile fun c => !isMark c
    let exponent ← if behind.isEmpty then some 0 else exponent? behind.tail
    match Text.cutAt? '.' mantissa with
    | none => if behind.isEmpty then none else finite? negative (← decimal? mantissa) 0 exponent
    | some (whole, places) =>
      let ds ← decimal? whole
      let ps ← digits? Char.isDigit places
      finite? negative (ds ++ ps) ps.length exponent

def moment? (cs : List Char) : Option Json.Value :=
  (Moment.parse? cs).map fun m => .text m.text

/-- A character of a number, truth value or date. -/
def isPlain (c : Char) : Bool :=
  c.isAlphanum || c == '_' || c == '+' || c == '-' || c == '.' || c == ':'

def word? (cs : List Char) : Option Json.Value :=
  if cs = "true".toList then some (.bool true)
  else if cs = "false".toList then some (.bool false)
  else (integer? cs).or ((based? cs).or ((float? cs).or (moment? cs)))

/-- A number, truth value or date; a blank may stand between a date and a time. -/
def plain (cs : List Char) : Option (Json.Value × List Char) :=
  let head := cs.takeWhile isPlain
  let rest := cs.dropWhile isPlain
  let time := rest.tail.takeWhile isPlain
  if (Day.parse? head).isSome && rest.head? == some ' ' && (time.head?.map Char.isDigit).getD false
  then (word? (head ++ ' ' :: time)).map fun v => (v, rest.tail.dropWhile isPlain)
  else (word? head).map fun v => (v, rest)

end Punctual.Toml
