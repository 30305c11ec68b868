import Punctual.Shell.Tool.Options

/-!
# Order

Lines are put in order by keys: by their octets, or by the numbers or months in front of them.
Lines that are in order can be compared with those of another input.
-/

namespace Punctual.Shell

namespace Tool

/-! ## Comparing -/

/-- How keys are compared. -/
inductive Scale
  | octets
  | number
  /-- Numbers with exponents. -/
  | general
  /-- Numbers with letters that stand for powers of a thousand. -/
  | magnitude
  | month
  deriving DecidableEq

def compareOctets (a b : Octets) : Ordering :=
  if Octets.precedes a b then .lt else if Octets.precedes b a then .gt else .eq

/-- A decimal number: its digits as an integer, and how many of them are behind the point. -/
structure Decimal where
  digits : Int
  places : Nat

namespace Decimal

def order (a b : Decimal) : Ordering :=
  compare (a.digits * (10 : Int).pow b.places) (b.digits * (10 : Int).pow a.places)

/-- The number in front of some octets, zero if there is none, and the octets behind it. -/
def leading (cs : Octets) : Decimal × Octets :=
  let cs := cs.dropWhile isSpace
  let (isNegative, cs) := match cs with
    | '-' :: ds => (true, ds)
    | ds => (false, ds)
  let whole := cs.takeWhile Char.isDigit
  let (places, rest) := match cs.dropWhile Char.isDigit with
    | '.' :: ds => (ds.takeWhile Char.isDigit, ds.dropWhile Char.isDigit)
    | rest => ([], rest)
  let n : Int := Text.natOfDigits (whole ++ places)
  (⟨if isNegative then -n else n, places.length⟩, rest)

/-- The number in front of some octets, whose exponent may be written. -/
def leadingGeneral (cs : Octets) : Decimal :=
  let cs := match cs.dropWhile isLayout with
    | '+' :: ds => ds
    | ds => ds
  let (d, rest) := leading cs
  match rest with
  | e :: rest =>
    let (isNegative, ds) := match rest with
      | '-' :: ds => (true, ds)
      | '+' :: ds => (false, ds)
      | ds => (false, ds)
    let n := min 400 (Text.natOfDigits (ds.takeWhile Char.isDigit))
    if (e = 'e' || e = 'E') && (ds.head?.any Char.isDigit) then
      if isNegative then ⟨d.digits, d.places + n⟩ else ⟨d.digits * (10 : Int).pow n, d.places⟩
    else d
  | [] => d

end Decimal

/-- The letters for powers of a thousand, in order. -/
def magnitudes : List Char := ['k', 'M', 'G', 'T', 'P', 'E', 'Z', 'Y']

/-- The rank of the letter behind a number: the number zero has none. -/
def magnitudeOf (d : Decimal) (rest : Octets) : Int :=
  let rank : Nat := match rest with
    | 'K' :: _ => 1
    | c :: _ => ((magnitudes.idxOf? c).map (· + 1)).getD 0
    | [] => 0
  if d.digits < 0 then -(rank : Int) else if d.digits = 0 then 0 else (rank : Int)

def months : List String :=
  ["JAN", "FEB", "MAR", "APR", "MAY", "JUN", "JUL", "AUG", "SEP", "OCT", "NOV", "DEC"]

/-- The number of the month in front of some octets, zero if there is none. -/
def monthOf (cs : Octets) : Nat :=
  let name := String.ofList (((cs.dropWhile isSpace).take 3).map Char.toUpper)
  ((months.idxOf? name).map (· + 1)).getD 0

/-- How a key is compared. -/
structure Manner where
  scale : Scale
  reversed : Bool
  anyCase : Bool
  /-- Only blanks, letters and digits count. -/
  dictionary : Bool
  /-- Only characters count. -/
  printable : Bool

def Manner.image (m : Manner) (cs : Octets) : Octets :=
  let cs := if m.dictionary then cs.filter fun c => isSpace c || c.isAlphanum else cs
  let cs := if m.printable then cs.filter fun c => ' ' ≤ c && c ≤ '~' else cs
  if m.anyCase then cs.map Char.toUpper else cs

def Manner.order (m : Manner) (a b : Octets) : Ordering :=
  let order := match m.scale with
    | .octets => compareOctets (m.image a) (m.image b)
    | .number => (Decimal.leading a).1.order (Decimal.leading b).1
    | .general => (Decimal.leadingGeneral a).order (Decimal.leadingGeneral b)
    | .magnitude =>
      let (d, rest) := Decimal.leading a
      let (e, other) := Decimal.leading b
      (compare (magnitudeOf d rest) (magnitudeOf e other)).then (d.order e)
    | .month => compare (monthOf a) (monthOf b)
  if m.reversed then order.swap else order

def Manner.ofLetters (letters : Octets) : Manner where
  scale :=
    if letters.contains 'n' then .number
    else if letters.contains 'g' then .general
    else if letters.contains 'h' then .magnitude
    else if letters.contains 'M' then .month
    else .octets
  reversed := letters.contains 'r'
  anyCase := letters.contains 'f'
  dictionary := letters.contains 'd'
  printable := letters.contains 'i'

/-! ## Keys -/

/-- A place in a line: the fields before it and the octets before it in its field. -/
structure KeyPlace where
  fields : Nat
  octets : Nat
  skipsBlanks : Bool

/-- A part of lines by which they are ordered. -/
structure Key where
  start : KeyPlace
  /-- Where the key ends; with no octets, at the end of the field behind the fields. -/
  stop : Option KeyPlace
  letters : Octets

def mannerLetters : Octets := "bdfghiMnr".toList

/-- The number in front of some octets, and the octets behind it. -/
def numeral? (cs : Octets) : Option (Nat × Octets) :=
  let ds := cs.takeWhile Char.isDigit
  if ds.isEmpty then none else some (Text.natOfDigits ds, cs.dropWhile Char.isDigit)

/-- A place with the letters behind it: a field, and an octet in it if `octet?`. -/
def keyPlace? (cs : Octets) : Option ((Nat × Option Nat × Octets) × Octets) := do
  let (field, rest) ← numeral? cs
  let (octet?, rest) ← match rest with
    | '.' :: rest => (numeral? rest).map fun (n, rest) => (some n, rest)
    | rest => some (none, rest)
  return ((field, octet?, rest.takeWhile mannerLetters.contains),
    rest.dropWhile mannerLetters.contains)

def Key.parse? (cs : Octets) : Option Key := do
  let ((field, octet?, letters), rest) ← keyPlace? cs
  if field = 0 || octet? == some 0 then none
  else
    let start : KeyPlace := ⟨field - 1, octet?.getD 1 - 1, letters.contains 'b'⟩
    match rest with
    | [] => return ⟨start, none, letters⟩
    | ',' :: rest =>
      let ((field, octet?, more), rest) ← keyPlace? rest
      if field = 0 || !rest.isEmpty then none
      else return ⟨start, some ⟨field - 1, octet?.getD 0, more.contains 'b'⟩, letters ++ more⟩
    | _ => none

/-- The octets behind as many fields; a separator ends a field, or else the next blank does. -/
def behindFields (separator : Option Char) : Nat → Octets → Octets
  | 0, cs => cs
  | n + 1, cs =>
    behindFields separator n (match separator with
      | some s => (cs.dropWhile (· ≠ s)).drop 1
      | none => (cs.dropWhile isLayout).dropWhile fun c => !isLayout c)

/-- The octets of a line before its end, as many as lie behind a place. -/
def KeyPlace.rest (p : KeyPlace) (separator : Option Char) (line : Octets) : Octets :=
  let cs := behindFields separator p.fields line
  (if p.skipsBlanks then cs.dropWhile isLayout else cs).drop p.octets

/-- The octets that lie behind the place where a key ends. -/
def KeyPlace.restAtEnd (p : KeyPlace) (separator : Option Char) (line : Octets) : Octets :=
  if p.octets = 0 then
    let cs := behindFields separator p.fields line
    match separator with
    | some s => cs.dropWhile (· ≠ s)
    | none => behindFields none 1 cs
  else p.rest separator line

def Key.part (k : Key) (separator : Option Char) (line : Octets) : Octets :=
  let rest := k.start.rest separator line
  match k.stop with
  | none => rest
  | some p => rest.take (rest.length - (p.restAtEnd separator line).length)

/-- How lines are put in order. -/
structure Arrangement where
  keys : List Key
  separator : Option Char
  /-- The letters for keys that have none of their own. -/
  letters : Octets
  /-- Lines with the same keys are the same. -/
  onlyKeys : Bool

namespace Arrangement

def keyOrder (a : Arrangement) (x y : Octets) : Ordering :=
  a.keys.foldl (fun o k =>
    let k := if k.letters.isEmpty then
        { k with letters := a.letters, start :=
          { k.start with skipsBlanks := a.letters.contains 'b' } }
      else k
    o.then ((Manner.ofLetters k.letters).order (k.part a.separator x) (k.part a.separator y))) .eq

def order (a : Arrangement) (x y : Octets) : Ordering :=
  let all := compareOctets x y
  (a.keyOrder x y).then
    (if a.onlyKeys then .eq else if a.letters.contains 'r' then all.swap else all)

end Arrangement

def sortOptions : Options where
  flags := "bcCdfghiMmnrsuz"
  valued := "koStT"
  names := [("ignore-leading-blanks", 'b'), ("check", 'c'), ("dictionary-order", 'd'),
    ("ignore-case", 'f'), ("general-numeric-sort", 'g'), ("human-numeric-sort", 'h'),
    ("ignore-nonprinting", 'i'), ("key", 'k'), ("merge", 'm'), ("month-sort", 'M'),
    ("numeric-sort", 'n'), ("output", 'o'), ("reverse", 'r'), ("stable", 's'),
    ("buffer-size", 'S'), ("field-separator", 't'), ("unique", 'u'), ("zero-terminated", 'z')]

/-- Lists the first elements of runs of elements that are the same. -/
def firstsOf {α : Type} (same : α → α → Bool) : List α → List α
  | [] => []
  | x :: xs => x :: go x xs
where
  go (x : α) : List α → List α
    | [] => []
    | y :: ys => if same x y then go x ys else y :: go y ys

/-- The number and text of the first line that does not follow the one before it. -/
def disorder? (follows : Octets → Octets → Bool) : Nat → List Octets → Option (Nat × Octets)
  | n, x :: y :: ls =>
    if follows x y then disorder? follows (n + 1) (y :: ls) else some (n + 1, y)
  | _, _ => none

def sort : Tool := withOptions "sort" sortOptions (fun call => do
  let letters := call.options.filterMap fun (c, _) => if mannerLetters.contains c then some c else none
  let separator? : Except String (Option Char) := match call.value? 't' with
    | none => .ok none
    | some [c] => .ok (some c)
    | some ['\\', '0'] => .ok (some '\x00')
    | some [] => .error "empty tab"
    | some cs => .error ("multi-character tab " ++ shown cs)
  match (call.values 'k').find? fun k => (Key.parse? k).isNone, separator? with
  | some k, _ =>
    refuse "sort" ("invalid number at field start: invalid count at start of " ++ shown k) 2
  | _, .error text => refuse "sort" text 2
  | none, .ok separator => do
    let keys := (call.values 'k').filterMap Key.parse?
    let keys := if keys.isEmpty then [⟨⟨0, 0, false⟩, none, []⟩] else keys
    let a : Arrangement := ⟨keys, separator, letters, call.has 's' || call.has 'u'⟩
    let problem : Report := fun path e =>
      if e = .isDirectory then "sort: read failed: " ++ path ++ ": " ++ reason e
      else "sort: cannot read: " ++ path ++ ": " ++ reason e
    let (inputs, status) ← contents problem call.operands
    if status ≠ 0 then return 2
    let lines := inputs.flatMap fun (_, cs) => recordsOf (call.has 'z') cs
    if call.has 'c' || call.has 'C' then
      let follows (x y : Octets) : Bool :=
        if call.has 'u' then a.order x y == .lt else a.order x y != .gt
      match disorder? follows 1 lines with
      | none => return 0
      | some (n, line) =>
        let name := call.operands.head?.getD ['-']
        if call.has 'c' then
          Act.complain ("sort: " ++ Octets.toText name ++ ":" ++ toString n ++ ": disorder: " ++
            Octets.toText line)
        return 1
    let isInOrder (x y : Octets) : Bool := a.order x y != .gt
    let sorted :=
      if call.has 'm' then
        inputs.foldl (fun ls (_, cs) => List.merge ls (recordsOf (call.has 'z') cs) isInOrder) []
      else lines.mergeSort isInOrder
    let kept :=
      if call.has 'u' then firstsOf (fun x y => a.keyOrder x y == .eq) sorted else sorted
    let out := unrecords (call.has 'z') kept
    match call.value? 'o' with
    | none => Act.write out
    | some path =>
      match ← writeFile path false out with
      | none => return 0
      | some e => refuse "sort" ("open failed: " ++ Octets.toText path ++ ": " ++ reason e) 2) 2

/-! ## Lines that follow one another -/

def uniqOptions : Options where
  flags := "cdDuiz"
  valued := "fsw"
  names := [("count", 'c'), ("repeated", 'd'), ("skip-fields", 'f'), ("ignore-case", 'i'),
    ("skip-chars", 's'), ("unique", 'u'), ("zero-terminated", 'z'), ("check-chars", 'w')]

/-- Runs of elements that are the same as the ones before them. -/
def runsBy {α : Type} (same : α → α → Bool) : List α → List (List α)
  | [] => []
  | x :: xs =>
    match runsBy same xs with
    | (y :: ys) :: rest => if same x y then (x :: y :: ys) :: rest else [x] :: (y :: ys) :: rest
    | rest => [x] :: rest

/-- Takes equal lines that follow one another as one. -/
def uniq : Tool := withOptions "uniq" uniqOptions fun call => do
  let number (letter : Char) : Option Nat := (call.value? letter).bind Text.nat?
  let part (l : Octets) : Octets :=
    let cs := (behindFields none ((number 'f').getD 0) l).drop ((number 's').getD 0)
    let cs := ((number 'w').map cs.take).getD cs
    if call.has 'i' then cs.map Char.toUpper else cs
  let problem : Report := fun path e =>
    if e = .isDirectory then "uniq: error reading '" ++ path ++ "': " ++ reason e
    else report "uniq: " path e
  match call.operands.drop 2 with
  | extra :: _ => decline "uniq" ("extra operand " ++ shown extra)
  | [] => do
    let (inputs, status) ← contents problem (call.operands.take 1)
    if status ≠ 0 then return status
    let lines := inputs.flatMap fun (_, cs) => recordsOf (call.has 'z') cs
    let runs := runsBy (fun x y => part x == part y) lines
    let kept := runs.filter fun run =>
      (!(call.has 'd' || call.has 'D') || 1 < run.length) && (!call.has 'u' || run.length == 1)
    let rows (run : List Octets) : List Octets :=
      if call.has 'D' then run
      else
        let lead := if call.has 'c' then padded 7 (Octets.ofNat run.length) ++ [' '] else []
        [lead ++ run.head?.getD []]
    let out := unrecords (call.has 'z') (kept.flatMap rows)
    match call.operands[1]? with
    | none => Act.write out
    | some path =>
      match ← writeFile path false out with
      | none => return 0
      | some e => refuse "uniq" (Octets.toText path ++ ": " ++ reason e)

/-! ## Two inputs in order -/

/-- A line of the first input, of the second one, or of both. -/
inductive Side
  | left
  | right
  | both
  deriving DecidableEq

/-- The lines of two inputs in order, with the sides that they are on. -/
def merged : Nat → List Octets → List Octets → List (Side × Octets)
  | 0, _, _ => []
  | _, [], ys => ys.map (.right, ·)
  | _, xs, [] => xs.map (.left, ·)
  | fuel + 1, x :: xs, y :: ys =>
    match compareOctets x y with
    | .lt => (.left, x) :: merged fuel xs (y :: ys)
    | .gt => (.right, y) :: merged fuel (x :: xs) ys
    | .eq => (.both, x) :: merged fuel xs ys

/-- The contents of two files; without them, the status of the failure. -/
def twoInputs (tool : String) (problem : Report) (call : Call) :
    Act (Except Nat (Octets × Octets)) := do
  match call.operands with
  | [a, b] =>
    match ← contentOf a, ← contentOf b with
    | .error e, _ =>
      Act.complain (problem (Octets.toText a) e)
      return .error 1
    | .ok _, .error e =>
      Act.complain (problem (Octets.toText b) e)
      return .error 1
    | .ok x, .ok y => return .ok (x, y)
  | [] => return .error (← decline tool "missing operand")
  | [a] => return .error (← decline tool ("missing operand after " ++ shown a))
  | _ :: _ :: c :: _ => return .error (← decline tool ("extra operand " ++ shown c))

def commOptions : Options where
  flags := "123!"
  valued := "d"
  names := [("output-delimiter", 'd'), ("nocheck-order", '!')]

def areOrdered (ls : List Octets) : Bool :=
  (disorder? (fun x y => !Octets.precedes y x) 1 ls).isNone

/-- Shows which lines two inputs in order have alone and together. -/
def comm : Tool := withOptions "comm" commOptions fun call => do
  match ← twoInputs "comm" (report "comm: ") call with
  | .error status => return status
  | .ok (a, b) => do
    let (xs, ys) := (linesOf a, linesOf b)
    let gap := (call.value? 'd').getD ['\t']
    let all := merged (xs.length + ys.length + 1) xs ys
    let has1 := !call.has '1'
    let has2 := !call.has '2'
    let row : Side × Octets → Octets
      | (.left, l) => if has1 then l ++ ['\n'] else []
      | (.right, l) => if has2 then (if has1 then gap else []) ++ l ++ ['\n'] else []
      | (.both, l) =>
        if call.has '3' then []
        else (if has1 then gap else []) ++ (if has2 then gap else []) ++ l ++ ['\n']
    let isPaired := all.all fun (s, _) => s == .both
    let checks := !isPaired && !call.has '!'
    let problems := (if areOrdered xs then [] else [1]) ++ if areOrdered ys then [] else [2]
    let isWrong := checks && !problems.isEmpty
    if isWrong then
      for n in problems do
        Act.complain ("comm: file " ++ toString n ++ " is not in sorted order")
      Act.complain "comm: input is not in sorted order"
    finishing (if isWrong then 1 else 0) (all.flatMap row)

def joinOptions : Options where
  flags := "iz!"
  valued := "12jtaveo"
  names := [("ignore-case", 'i'), ("nocheck-order", '!'), ("zero-terminated", 'z')]

abbrev Row := List Octets

/-- How the rows of two tables are put together. -/
structure Joining where
  separator : Option Char
  leftKey : Nat
  rightKey : Nat
  anyCase : Bool
  filler : Option Octets
  /-- The fields to show: the key, or a field of a side. -/
  shape : Option (List (Option (Side × Nat)))

namespace Joining

def row (j : Joining) (line : Octets) : Row :=
  match j.separator with
  | some c => fieldsOf c line
  | none => words line

def key (j : Joining) (s : Side) (r : Row) : Octets :=
  let k := (r[(if s = .right then j.rightKey else j.leftKey) - 1]?).getD []
  if j.anyCase then k.map Char.toUpper else k

/-- A field, or what stands in place of an empty one. -/
def filled (j : Joining) (f : Octets) : Octets :=
  if f.isEmpty then j.filler.getD [] else f

/-- The line of a row of each side, or of one side alone. -/
def line (j : Joining) (left right : Option Row) : Octets :=
  let key :=
    match left, right with
    | some r, _ => (r[j.leftKey - 1]?).getD []
    | none, some r => (r[j.rightKey - 1]?).getD []
    | none, none => []
  let others (n : Nat) (r? : Option Row) : List Octets :=
    ((r?.getD []).eraseIdx (n - 1)).map j.filled
  let fields := match j.shape with
    | none => j.filled key :: others j.leftKey left ++ others j.rightKey right
    | some shape => shape.map fun
      | none => j.filled key
      | some (s, n) =>
        j.filled ((((if s = .right then right else left).getD [])[n - 1]?).getD [])
  List.intercalate [j.separator.getD ' '] fields

/-- Goes through the rows of two tables in order: rows with the same key stand together. -/
def pairs (j : Joining) : Nat → List Row → List Row → List (Side × Octets)
  | 0, _, _ => []
  | _, [], ys => ys.map fun y => (.right, j.line none (some y))
  | _, xs, [] => xs.map fun x => (.left, j.line (some x) none)
  | fuel + 1, x :: xs, y :: ys =>
    match compareOctets (j.key .left x) (j.key .right y) with
    | .lt => (.left, j.line (some x) none) :: pairs j fuel xs (y :: ys)
    | .gt => (.right, j.line none (some y)) :: pairs j fuel (x :: xs) ys
    | .eq =>
      let isSame (s : Side) (r : Row) : Bool := j.key s r == j.key .left x
      let lefts := x :: xs.takeWhile (isSame .left)
      let rights := y :: ys.takeWhile (isSame .right)
      lefts.flatMap (fun l => rights.map fun r => (.both, j.line (some l) (some r))) ++
        pairs j fuel (xs.dropWhile (isSame .left)) (ys.dropWhile (isSame .right))

def shape? (cs : Octets) : Option (List (Option (Side × Nat))) :=
  ((words (cs.map fun c => if c = ',' then ' ' else c))).mapM fun
    | ['0'] => some none
    | '1' :: '.' :: n => (Text.nat? n).map fun n => some (.left, n)
    | '2' :: '.' :: n => (Text.nat? n).map fun n => some (.right, n)
    | _ => none

end Joining

/-- Puts the rows of two tables in order together that have the same key. -/
def join : Tool := withOptions "join" joinOptions fun call => do
  let problem : Report := fun path e =>
    if e = .isDirectory then "join: read error: " ++ reason e else report "join: " path e
  match ← twoInputs "join" problem call with
  | .error status => return status
  | .ok (a, b) => do
    let number (letter : Char) : Nat :=
      (((call.value? letter).or (call.value? 'j')).bind Text.nat?).getD 1
    let j : Joining := {
      separator := (call.value? 't').bind List.head?
      leftKey := number '1'
      rightKey := number '2'
      anyCase := call.has 'i'
      filler := call.value? 'e'
      shape := (call.value? 'o').bind Joining.shape? }
    let (xs, ys) := ((linesOf a).map j.row, (linesOf b).map j.row)
    let alone := call.values 'v'
    let withLonely := call.values 'a' ++ alone
    let isShown : Side → Bool
      | .both => alone.isEmpty
      | .left => withLonely.contains ['1']
      | .right => withLonely.contains ['2']
    let rows := (j.pairs (xs.length + ys.length + 1) xs ys).filter fun (s, _) => isShown s
    Act.write (unlines (rows.map Prod.snd))

end Tool

end Punctual.Shell
