import Punctual.Files.Path
import Punctual.Shell.Tool.Copy
import Punctual.Shell.Tool.Order
import Punctual.Shell.Written

/-!
# Printing arguments

Arguments are printed between blanks, in a format, or as the numbers and paths that they stand
for.
-/

namespace Punctual.Shell

namespace Tool

/-! ## Texts -/

/-- The flags of `echo` in front of its arguments, and the arguments behind them. -/
def echoFlags : List Octets → Octets × List Octets
  | ('-' :: c :: cs) :: args =>
    if (c :: cs).all "neE".toList.contains then
      let (flags, rest) := echoFlags args
      (c :: cs ++ flags, rest)
    else ([], ('-' :: c :: cs) :: args)
  | args => ([], args)

def echo : Tool := fun args => do
  let (flags, rest) := echoFlags args
  let text := List.intercalate [' '] rest
  let isRead := (flags.filter fun c => c = 'e' || c = 'E').getLast? = some 'e'
  let (out, ends) := if isRead then Written.unescape true text.length text else (text, false)
  Act.write (out ++ if flags.contains 'n' || ends then [] else ['\n'])

/-- Prints its arguments between blanks; escapes are read. -/
def echoEscaped : Tool := fun args => do
  let (bare, rest) := match args with
    | ['-', 'n'] :: rest => (true, rest)
    | rest => (false, rest)
  let text := List.intercalate [' '] rest
  let (out, ends) := Written.unescape false text.length text
  Act.write (out ++ if bare || ends then [] else ['\n'])

/-- How a command prints in a format: how it speaks about problems, and whether it knows octets by
their numbers in base sixteen. -/
structure FormatVoice where
  hexes : Bool
  /-- Says that nothing is to be printed. -/
  missing : Act Nat
  /-- What is said about a problem with a word. -/
  report : String → Written.Problem → String
  /-- Says something. -/
  say : String → Act Unit

def printIn (voice : FormatVoice) : Tool := fun args => do
  let args := match args with
    | ['-', '-'] :: rest => rest
    | rest => rest
  match args with
  | [] => voice.missing
  | format :: rest => do
    let p := Written.format (Written.pieces voice.hexes format.length format) (rest.length + 1) rest
    for (word, problem) in p.problems do
      voice.say (voice.report (Octets.toText word) problem)
    let isStopped := p.problems.any fun (_, problem) => problem == .noDirective
    finishing (if isStopped then 2 else if p.problems.isEmpty then 0 else 1) p.octets

/-- Prints in a format, as the interpreter does itself. -/
def printfOwn : Tool := printIn {
  hexes := false
  missing := do
    Act.fault "usage: printf format [arg ...]"
    return 2
  report := fun word problem => match problem with
    | .notNumber => word ++ ": expected numeric value"
    | .partlyNumber => word ++ ": not completely converted"
    | .outOfRange => word ++ ": Numerical result out of range"
    | .noDirective => if word = "" then "missing format character" else word ++ ": invalid directive"
  say := Act.fault }

def printf : Tool := fun args => do
  let status ← printIn {
    hexes := true
    missing := decline "printf" "missing operand"
    report := fun word problem => match problem with
      | .notNumber => "'" ++ word ++ "': expected a numeric value"
      | .partlyNumber => "'" ++ word ++ "': value not completely converted"
      | .outOfRange => "'" ++ word ++ "': Numerical result out of range"
      | .noDirective => word ++ ": invalid conversion specification"
    say := fun text => Act.complain ("printf: " ++ text) } args
  return min status 1

/-! ## Numbers -/

/-- A decimal number that a word denotes, with its digits behind the point. -/
def decimal? (cs : Octets) : Option Decimal :=
  let body := match cs.dropWhile isSpace with
    | '+' :: ds => ds
    | ds => ds
  match Written.leadingInteger? body with
  | some (n, []) => some ⟨n, 0⟩
  | _ =>
    let (d, rest) := Decimal.leading body
    let hasDigit := body.any Char.isDigit
    if !hasDigit then none
    else match rest with
      | [] => some d
      | e :: ds =>
        if e = 'e' || e = 'E' then
          (Text.int? ds).map fun n =>
            if 0 ≤ n then
              ⟨d.digits * (10 : Int).pow (n.toNat - d.places), d.places - n.toNat⟩
            else ⟨d.digits, d.places + n.natAbs⟩
        else none

/-- A decimal number with so many digits behind the point. -/
def Decimal.text (d : Decimal) (places : Nat) : Octets :=
  let digits := Nat.toDigits 10 (d.digits.natAbs * Nat.pow 10 (places - d.places))
  let digits := List.replicate (places + 1 - digits.length) '0' ++ digits
  let whole := digits.length - places
  (if d.digits < 0 then ['-'] else []) ++ digits.take whole ++
    if places = 0 then [] else '.' :: digits.drop whole

def seqOptions : Options where
  flags := "w"
  valued := "fs"
  names := [("equal-width", 'w'), ("format", 'f'), ("separator", 's')]
  stopsAtOperand := true

def isNegativeNumber : Octets → Bool
  | '-' :: c :: _ => c.isDigit || c = '.'
  | _ => false

/-- The number in a format; the places are those that the format has. -/
def formatNumber (format : Octets) (d : Decimal) : Option Octets :=
  let arg := d.text d.places
  let ps := Written.pieces true format.length format
  let isFloat : Written.Piece → Bool
    | .directive d => "eEfFgG".toList.contains d.kind
    | _ => false
  if ps.any isFloat then some (Written.fillAll ps [arg]).octets else none

/-- The numbers from a first one on, in steps, up to a last one. -/
def numbersBetween (first step last : Decimal) : List Decimal :=
  let places := max first.places (max step.places last.places)
  let scaled (d : Decimal) : Int := d.digits * (10 : Int).pow (places - d.places)
  let (a, s, b) := (scaled first, scaled step, scaled last)
  let count := if 0 < s then (b - a) / s + 1 else if s < 0 then (a - b) / (-s) + 1 else 0
  let shownPlaces := max first.places step.places
  (List.range count.toNat).map fun (i : Nat) =>
    ⟨(a + s * i) / (10 : Int).pow (places - shownPlaces), shownPlaces⟩

def seq : Tool := fun args =>
  let front := args.takeWhile fun a => !isNegativeNumber a
  let back := args.dropWhile fun a => !isNegativeNumber a
  withOptions "seq" seqOptions (fun call => do
    let words := call.operands ++ back
    match words.find? fun w => (decimal? w).isNone, words.filterMap decimal? with
    | some w, _ => decline "seq" ("invalid floating point argument: " ++ shown w)
    | none, [] => decline "seq" "missing operand"
    | none, numbers =>
      let triple? : Option (Decimal × Decimal × Decimal) := match numbers with
        | [last] => some (⟨1, 0⟩, ⟨1, 0⟩, last)
        | [first, last] => some (first, ⟨1, 0⟩, last)
        | [first, step, last] => some (first, step, last)
        | _ => none
      match triple? with
      | none => decline "seq" ("extra operand " ++ shown (words[3]?.getD []))
      | some (first, step, last) =>
        if step.digits = 0 then
          decline "seq" ("invalid Zero increment value: " ++ shown (words[1]?.getD []))
        else
          let all := numbersBetween first step last
          let places := max first.places step.places
          let plain := all.map fun d => d.text d.places
          let widest := ((first.text places).length ::
            ((⟨last.digits / (10 : Int).pow (last.places - places), min places last.places⟩
              : Decimal).text places).length ::
            plain.map List.length).foldl max 0
          let filled (cs : Octets) : Octets := match cs with
            | '-' :: ds => '-' :: List.replicate (widest - cs.length) '0' ++ ds
            | ds => List.replicate (widest - cs.length) '0' ++ ds
          let texts? : Option (List Octets) := match call.value? 'f' with
            | some format => all.mapM (formatNumber format)
            | none => some (if call.has 'w' then plain.map filled else plain)
          match texts? with
          | none =>
            refuse "seq" ("format " ++ shown ((call.value? 'f').getD []) ++ " has no % directive")
          | some texts =>
            let gap := (call.value? 's').getD ['\n']
            Act.write (List.intercalate gap texts ++ if texts.isEmpty then [] else ['\n']))
    1 front

def yes : Tool := fun args => do
  let line := (if args.isEmpty then ['y'] else List.intercalate [' '] args) ++ ['\n']
  let _ ← Act.write (List.replicate (plenty / line.length + 1) line).flatten
  Act.halt .endless

/-! ## Paths -/

/-- The last part of a path, without an ending if it has one. -/
def lastPart (path ending : Octets) : Octets :=
  let text := Octets.toText path
  let last := Octets.ofText (((Path.split text).filter (· ≠ "")).getLast?.getD
    (if text = "" then "" else "/"))
  let isCut := ending.isSuffixOf last && ending.length < last.length
  if isCut then last.take (last.length - ending.length) else last

def basenameOptions : Options where
  flags := "az"
  valued := "s"
  names := [("multiple", 'a'), ("suffix", 's'), ("zero", 'z')]
  stopsAtOperand := true

def basename : Tool := withOptions "basename" basenameOptions fun call => do
  let byZeros := call.has 'z'
  let ending := (call.value? 's').getD []
  match call.operands with
  | [] => decline "basename" "missing operand"
  | path :: rest =>
    if call.has 'a' || call.has 's' then
      Act.write (unrecords byZeros ((path :: rest).map fun p => lastPart p ending))
    else
      match rest.drop 1 with
      | extra :: _ => decline "basename" ("extra operand " ++ shown extra)
      | [] => Act.write (unrecords byZeros [lastPart path (rest.head?.getD [])])

def withoutLastPart (path : Octets) : Octets :=
  let text := Octets.toText path
  let above := Path.parent text
  Octets.ofText (if above ≠ "" then above else if Path.isAbsolute text then "/" else ".")

def dirname : Tool :=
  withOptions "dirname" { flags := "z", names := [("zero", 'z')] } fun call => do
    if call.operands.isEmpty then decline "dirname" "missing operand"
    else Act.write (unrecords (call.has 'z') (call.operands.map withoutLastPart))

end Tool

end Punctual.Shell
