import Punctual.Shell.Expression
import Punctual.Shell.Tool.Order

/-!
# Columns

Lines are cut into fields and octets, put side by side, numbered and folded.
-/

namespace Punctual.Shell

namespace Tool

/-! ## Cutting -/

/-- A range of places, the last one maybe open. -/
structure Places where
  first : Nat
  last : Option Nat
  deriving DecidableEq

def Places.holds (r : Places) (place : Nat) : Bool :=
  r.first ≤ place && r.last.all fun l => decide (place ≤ l)

def maxPlace : Nat := 18446744073709551614

/-- Reads a range of places; a word for a place stands in reports. -/
def places (fields : Bool) (cs : Octets) : Except String Places := do
  let fromOne := if fields then "fields are numbered from 1"
    else "byte/character positions are numbered from 1"
  let place (ds : Octets) : Except String Nat :=
    match Text.nat? ds with
    | some 0 => .error fromOne
    | some n =>
      if n ≤ maxPlace then .ok n
      else .error ((if fields then "field number " else "byte/character offset ") ++
        shown ds ++ " is too large")
    | none => .error ((if fields then "invalid field value " else
        "invalid byte/character position ") ++ shown ds)
  match Text.cutAt? '-' cs with
  | none => if cs.isEmpty then .error fromOne else do
      let n ← place cs
      return ⟨n, some n⟩
  | some ([], []) => .error "invalid range with no endpoint: -"
  | some ([], last) => return ⟨1, some (← place last)⟩
  | some (first, []) => return ⟨← place first, none⟩
  | some (first, last) => do
    let r : Places := ⟨← place first, some (← place last)⟩
    if r.last.any fun l => decide (l < r.first) then .error "invalid decreasing range" else return r

/-- Ranges in order of which none begins in the one before it. -/
def joined : List Places → List Places
  | [] => []
  | r :: rs =>
    match joined rs with
    | [] => [r]
    | next :: rest =>
      if r.last.all fun l => decide (next.first ≤ l) then
        ⟨r.first, do return max (← r.last) (← next.last)⟩ :: rest
      else r :: next :: rest

def placesOf (fields : Bool) (cs : Octets) : Except String (List Places) := do
  let parts := fieldsOf ',' (cs.map fun c => if isSpace c then ',' else c)
  let ranges ← parts.mapM (places fields)
  return joined (ranges.mergeSort fun a b => a.first ≤ b.first)

/-- The ranges of the places that are in none of some ranges, from a place on. -/
def complement (start : Nat) : List Places → List Places
  | [] => [⟨start, none⟩]
  | r :: rs =>
    let gap : List Places := if start < r.first then [⟨start, some (r.first - 1)⟩] else []
    match r.last with
    | none => gap
    | some l => gap ++ complement (l + 1) rs

def cutOptions : Options where
  flags := "nsz!"
  valued := "bcdfo"
  names := [("bytes", 'b'), ("characters", 'c'), ("delimiter", 'd'), ("fields", 'f'),
    ("only-delimited", 's'), ("complement", '!'), ("output-delimiter", 'o'),
    ("zero-terminated", 'z')]

/-- What is taken of every line. -/
structure Selection where
  fields : Bool
  ranges : List Places
  separator : Char
  /-- Lines without a separator are dropped. -/
  strict : Bool
  joint : Option Octets

namespace Selection

/-- The octets of the ranges of a line, range by range. -/
def parts (s : Selection) (line : Octets) : List Octets :=
  (s.ranges.map fun r =>
    let behind := line.drop (r.first - 1)
    match r.last with
    | some l => behind.take (l + 1 - r.first)
    | none => behind).filter fun p => !p.isEmpty

/-- What is taken of a line, if it is not dropped. -/
def take? (s : Selection) (line : Octets) : Option Octets :=
  if !s.fields then some (List.intercalate (s.joint.getD []) (s.parts line))
  else if !line.contains s.separator then if s.strict then none else some line
  else
    let chosen := ((fieldsOf s.separator line).zipIdx 1).filter fun (_, place) =>
      s.ranges.any fun r => r.holds place
    some (List.intercalate (s.joint.getD [s.separator]) (chosen.map Prod.fst))

def ofCall (call : Call) : Except String Selection := do
  let (kind, list) ← match call.options.filter fun (c, _) => c = 'b' || c = 'c' || c = 'f' with
    | [] => .error "you must specify a list of bytes, characters, or fields"
    | [found] => .ok found
    | _ => .error "only one list may be specified"
  let fields := decide (kind = 'f')
  let separator ← match call.value? 'd' with
    | none => .ok '\t'
    | some [] => .ok '\x00'
    | some [c] => .ok c
    | some _ => .error "the delimiter must be a single character"
  if !fields && call.has 'd' then
    .error "an input delimiter may be specified only when operating on fields"
  else if !fields && call.has 's' then
    .error "suppressing non-delimited lines makes sense\n\tonly when operating on fields"
  else
    let ranges ← placesOf fields list
    let ranges := if call.has '!' then complement 1 ranges else ranges
    return ⟨fields, ranges, separator, call.has 's', call.value? 'o'⟩

end Selection

def cut : Tool := withOptions "cut" cutOptions fun call => do
  match Selection.ofCall call with
  | .error text => decline "cut" text
  | .ok s =>
    let (inputs, status) ← contents (report "cut: ") call.operands
    let byZeros := call.has 'z'
    let lines := inputs.flatMap fun (_, cs) => recordsOf byZeros cs
    finishing status (unrecords byZeros (lines.filterMap s.take?))

/-! ## Side by side -/

def pasteOptions : Options where
  flags := "sz"
  valued := "d"
  names := [("delimiters", 'd'), ("serial", 's'), ("zero-terminated", 'z')]

/-- The octets of a list between fields; one that is empty stands for nothing. -/
def joints : Octets → Option (List Octets)
  | [] => some []
  | ['\\'] => none
  | '\\' :: c :: cs =>
    let own : Octets := match c with
      | '0' => []
      | 'b' => ['\x08']
      | 'f' => ['\x0c']
      | 'n' => ['\n']
      | 'r' => ['\r']
      | 't' => ['\t']
      | 'v' => ['\x0b']
      | c => [c]
    (joints cs).map (own :: ·)
  | c :: cs => (joints cs).map ([c] :: ·)

/-- Fields with joints between them, which are taken in turn. -/
def interleave (js : List Octets) (place : Nat) : List Octets → Octets
  | [] => []
  | [f] => f
  | f :: fs => f ++ (js[place % js.length]?).getD [] ++ interleave js (place + 1) fs

/-- Every third of some elements, if there are three inputs, and so on: the elements that an input
gets if `count` inputs take them in turn. -/
def dealt {α : Type} (count place : Nat) (xs : List α) : List α :=
  (xs.zipIdx).filterMap fun (x, i) => if i % count = place then some x else none

/-- The rows of columns; a column that has ended gives nothing. -/
def rowsOf (columns : List (List Octets)) : List (List Octets) :=
  let height := (columns.map List.length).foldl max 0
  (List.range height).map fun i => columns.map fun column => (column[i]?).getD []

/-- The columns that paths name. Those that stand for standard input take its lines in turn. -/
def columnsOf (byZeros : Bool) (paths : List Octets) :
    Act (Except (Octets × IoError) (List (List Octets))) := do
  let isInput (p : Octets) : Bool := inputPaths.contains (Octets.toText p)
  let count := (paths.filter isInput).length
  let input ← if count = 0 then pure [] else Act.readAll
  let mut out := []
  let mut place := 0
  for path in paths do
    if isInput path then
      out := out ++ [dealt count place (recordsOf byZeros input)]
      place := place + 1
    else
      match ← contentOf path with
      | .ok cs => out := out ++ [recordsOf byZeros cs]
      | .error e => return .error (path, e)
  return .ok out

/-- Puts the lines of its inputs side by side, or those of each input in one line. -/
def paste : Tool := withOptions "paste" pasteOptions fun call => do
  let byZeros := call.has 'z'
  let list := (call.value? 'd').getD ['\t']
  let paths := if call.operands.isEmpty then [['-']] else call.operands
  match joints list with
  | none =>
    refuse "paste" ("delimiter list ends with an unescaped backslash: " ++ Octets.toText list)
  | some js =>
    if call.has 's' then
      let (inputs, status) ← contents (report "paste: ") paths
      finishing status (unrecords byZeros (inputs.map fun (_, cs) =>
        interleave js 0 (recordsOf byZeros cs)))
    else
      match ← columnsOf byZeros paths with
      | .error (path, e) => refuse "paste" (Octets.toText path ++ ": " ++ reason e)
      | .ok columns => Act.write (unrecords byZeros ((rowsOf columns).map (interleave js 0)))

/-! ## Numbering -/

/-- Which lines get numbers. -/
inductive Numbering
  | all
  | filled
  | none
  | matching (r : Regex)

def Numbering.parse? : Octets → Option Numbering
  | ['a'] => some .all
  | ['t'] => some .filled
  | ['n'] => some .none
  | 'p' :: cs => (Regex.parse .plain false cs).toOption.map fun p => .matching p.regex
  | _ => Option.none

def Numbering.holds (n : Numbering) (line : Octets) : Bool :=
  match n with
  | .all => true
  | .filled => !line.isEmpty
  | .none => false
  | .matching r => r.occursIn line

/-- How lines are numbered. -/
structure NumberForm where
  header : Numbering
  body : Numbering
  footer : Numbering
  separator : Octets
  width : Nat
  start : Int
  step : Int
  /-- Where the number stands in its width: `ln`, `rn` or `rz`. -/
  layout : Octets
  /-- Numbers start again with every page. -/
  restarts : Bool

namespace NumberForm

def numeral (f : NumberForm) (n : Int) : Octets :=
  let ds := Octets.ofInt n
  if f.layout = "ln".toList then ds ++ List.replicate (f.width - ds.length) ' '
  else if f.layout = "rz".toList then
    let digits := Octets.ofNat n.natAbs
    let sign : Octets := if n < 0 then ['-'] else []
    sign ++ List.replicate (f.width - sign.length - digits.length) '0' ++ digits
  else padded f.width ds

/-- The numbering that begins behind a line which stands between parts of a page, and whether a page
begins. -/
def border? (f : NumberForm) (line : Octets) : Option (Numbering × Bool) :=
  match String.ofList line with
  | "\\:\\:\\:" => some (f.header, true)
  | "\\:\\:" => some (f.body, false)
  | "\\:" => some (f.footer, false)
  | _ => Option.none

def render (f : NumberForm) (current : Numbering) (n : Int) : List Octets → List Octets
  | [] => []
  | l :: ls =>
    match f.border? l with
    | some (next, isPage) =>
      [] :: render f next (if isPage && f.restarts then f.start else n) ls
    | Option.none =>
      if current.holds l then
        (f.numeral n ++ f.separator ++ l) :: render f current (n + f.step) ls
      else
        (List.replicate (f.width + f.separator.length) ' ' ++ l) :: render f current n ls

end NumberForm

def nlOptions : Options where
  flags := "p"
  valued := "bdfhilnsvw"
  names := [("body-numbering", 'b'), ("section-delimiter", 'd'), ("footer-numbering", 'f'),
    ("header-numbering", 'h'), ("line-increment", 'i'), ("join-blank-lines", 'l'),
    ("number-format", 'n'), ("no-renumber", 'p'), ("number-separator", 's'),
    ("starting-line-number", 'v'), ("number-width", 'w')]

/-- The words for a number that is out of its range. -/
def outOfRange (cs : Octets) : String :=
  shown cs ++ ": Numerical result out of range"

/-- The form of numbers that a call asks for, or what is wrong with it, and whether that is a matter of
use. -/
def NumberForm.ofCall (call : Call) : Except (String × Bool) NumberForm := do
  let numbering (letter : Char) (part default : String) : Except (String × Bool) Numbering :=
    let cs := (call.value? letter).getD default.toList
    match Numbering.parse? cs with
    | some n => .ok n
    | Option.none => .error ("invalid " ++ part ++ " numbering style: " ++ shown cs, true)
  let integer (letter : Char) (words : String) (default : Int) : Except (String × Bool) Int :=
    match call.value? letter with
    | Option.none => .ok default
    | some cs =>
      match integer? cs with
      | some n => .ok n
      | Option.none => .error ("invalid " ++ words ++ ": " ++ shown cs, false)
  let layout := (call.value? 'n').getD "rn".toList
  let width ← integer 'w' "line number field width" 6
  let form : NumberForm := {
    header := ← numbering 'h' "header" "n"
    body := ← numbering 'b' "body" "t"
    footer := ← numbering 'f' "footer" "n"
    separator := (call.value? 's').getD ['\t']
    width := width.toNat
    start := ← integer 'v' "starting line number" 1
    step := ← integer 'i' "line number increment" 1
    layout := layout
    restarts := !call.has 'p' }
  if width < 1 then
    .error ("invalid line number field width: " ++ outOfRange ((call.value? 'w').getD []), false)
  else if ["ln", "rn", "rz"].contains (String.ofList layout) then .ok form
  else .error ("invalid line numbering format: " ++ shown layout, true)

def nl : Tool := withOptions "nl" nlOptions fun call => do
  match NumberForm.ofCall call with
  | .error (text, true) => decline "nl" text
  | .error (text, false) => refuse "nl" text
  | .ok form =>
    let (inputs, status) ← contents (report "nl: ") call.operands
    let lines := inputs.flatMap fun (_, cs) => linesOf cs
    finishing status (unlines (form.render form.body form.start lines))

/-! ## Widths -/

def nextColumn (byOctets : Bool) (column : Nat) (c : Char) : Nat :=
  if byOctets then column + 1
  else match c with
    | '\x08' => column - 1
    | '\r' => 0
    | '\t' => column + 8 - column % 8
    | _ => column + 1

/-- The start of a line up to its last blank, and the rest. -/
def cutBehindBlank? (line : Octets) : Option (Octets × Octets) :=
  let rest := line.reverse.takeWhile fun c => !isSpace c
  if rest.length = line.length then none
  else some (line.take (line.length - rest.length), rest.reverse)

/-- Folds octets into lines of a width; `line` is what stands in the line so far. -/
def folded (byOctets atBlanks : Bool) (width : Nat) : Octets → Octets → Octets
  | line, [] => line
  | line, '\n' :: cs => line ++ '\n' :: folded byOctets atBlanks width [] cs
  | line, c :: cs =>
    let columnOf (l : Octets) : Nat := l.foldl (nextColumn byOctets) 0
    if nextColumn byOctets (columnOf line) c ≤ width || line.isEmpty then
      folded byOctets atBlanks width (line ++ [c]) cs
    else
      match if atBlanks then cutBehindBlank? line else none with
      | none => line ++ '\n' :: folded byOctets atBlanks width [c] cs
      | some (front, rest) =>
        if nextColumn byOctets (columnOf rest) c ≤ width || rest.isEmpty then
          front ++ '\n' :: folded byOctets atBlanks width (rest ++ [c]) cs
        else front ++ '\n' :: rest ++ '\n' :: folded byOctets atBlanks width [c] cs

/-- The arguments in which a number behind a hyphen is the value of an option. -/
def withNumber (letter : Char) (args : List Octets) : List Octets :=
  args.map fun
    | '-' :: d :: ds => if d.isDigit then ['-', letter] ++ d :: ds else '-' :: d :: ds
    | arg => arg

def fold : Tool := fun args =>
  withOptions "fold"
    { flags := "bs", valued := "w", names := [("bytes", 'b'), ("spaces", 's'), ("width", 'w')] }
    (fun call => do
      let word := (call.value? 'w').getD "80".toList
      match Text.nat? word with
      | none => refuse "fold" ("invalid number of columns: " ++ shown word)
      | some 0 => refuse "fold" ("invalid number of columns: " ++ outOfRange word)
      | some width =>
        let (inputs, status) ← contents (report "fold: ") call.operands
        finishing status (inputs.flatMap fun (_, cs) =>
          folded (call.has 'b') (call.has 's') width [] cs)) 1 (withNumber 'w' args)

/-- The column of the next tab stop behind a column: the stops are multiples of the only one, or
those of a list, behind which every column is one. -/
def nextStop (stops : List Nat) (column : Nat) : Nat :=
  match stops with
  | [n] => column + n - column % n
  | stops => (stops.find? fun s => decide (column < s)).getD (column + 1)

/-- Replaces tabs by blanks, behind the first other octet of a line only if not `onlyFirst`. -/
def expanded (stops : List Nat) (onlyFirst : Bool) : Nat → Bool → Octets → Octets
  | _, _, [] => []
  | column, isStart, c :: cs =>
    let goOn := isStart || !onlyFirst
    match c with
    | '\n' => c :: expanded stops onlyFirst 0 true cs
    | '\t' =>
      let next := nextStop stops column
      (if goOn then List.replicate (next - column) ' ' else [c]) ++
        expanded stops onlyFirst next isStart cs
    | '\x08' => c :: expanded stops onlyFirst (column - 1) (isStart && isSpace c) cs
    | c => c :: expanded stops onlyFirst (column + 1) (isStart && isSpace c) cs

def stopsOf (cs : Octets) : Except String (List Nat) := do
  let parts := (fieldsOf ',' (cs.map fun c => if isSpace c then ',' else c)).filter
    fun p => !p.isEmpty
  let stops ← parts.mapM fun p =>
    match Text.nat? p with
    | none => .error ("tab size contains invalid character(s): " ++ shown p)
    | some 0 => .error "tab size cannot be 0"
    | some n => .ok n
  if (stops.zip (stops.drop 1)).any fun (a, b) => decide (b ≤ a) then
    .error "tab sizes must be ascending"
  else return if stops.isEmpty then [8] else stops

def expand : Tool := fun args =>
  withOptions "expand"
    { flags := "i", valued := "t", names := [("initial", 'i'), ("tabs", 't')] }
    (fun call => do
      match stopsOf ((call.value? 't').getD []) with
      | .error text => refuse "expand" text
      | .ok stops =>
        let (inputs, status) ← contents (report "expand: ") call.operands
        finishing status (inputs.flatMap fun (_, cs) =>
          expanded stops (call.has 'i') 0 true cs)) 1 (withNumber 't' args)

end Tool

end Punctual.Shell
