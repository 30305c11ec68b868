import Punctual.Shell.Tool.Options

/-!
# Copying

Inputs are copied as a whole or in part: from their start, up to their end, or in another order.
-/

namespace Punctual.Shell

namespace Tool

/-! ## Whole inputs -/

/-- How lines are shown when they are copied. -/
structure Display where
  numbers : Bool
  /-- Empty lines get no numbers. -/
  onlyFilled : Bool
  /-- Of empty lines that follow one another only the first is shown. -/
  squeezes : Bool
  ends : Bool
  tabs : Bool
  /-- Octets that are no characters are shown by marks. -/
  marks : Bool

/-- How far a display has come: the number of the last numbered line, and how many line feeds came
last. -/
structure Shown where
  number : Nat
  breaks : Nat

namespace Display

def isPlain (d : Display) : Bool :=
  !(d.numbers || d.squeezes || d.ends || d.tabs || d.marks)

def markLow (c : Char) : Octets :=
  if c.toNat < 32 then ['^', .ofNat (c.toNat + 64)]
  else if c.toNat = 127 then ['^', '?']
  else [c]

def octet (d : Display) (c : Char) : Octets :=
  if c = '\t' then if d.tabs then ['^', 'I'] else [c]
  else if !d.marks then [c]
  else if 128 ≤ c.toNat then ['M', '-'] ++ markLow (.ofNat (c.toNat - 128))
  else markLow c

def numeral (n : Nat) : Octets :=
  padded 6 (Octets.ofNat n) ++ ['\t']

def render (d : Display) (s : Shown) : Octets → Octets × Shown
  | [] => ([], s)
  | c :: cs =>
    let isEmpty := c = '\n' && 0 < s.breaks
    let isNumbered := d.numbers && 0 < s.breaks && !(isEmpty && d.onlyFilled)
    if isEmpty && d.squeezes && 1 < s.breaks then render d { s with breaks := s.breaks + 1 } cs
    else
      let number := if isNumbered then s.number + 1 else s.number
      let lead := if isNumbered then numeral number else []
      let own :=
        if c = '\n' then (if d.ends then ['$', c] else [c])
        else if c = '\r' && d.ends && cs.head? == some '\n' then ['^', 'M']
        else d.octet c
      let (out, last) := render d ⟨number, if c = '\n' then s.breaks + 1 else 0⟩ cs
      (lead ++ own ++ out, last)

def start : Shown := ⟨0, 1⟩

end Display

def catOptions : Options where
  flags := "AbeEnstTuv"
  names := [("show-all", 'A'), ("number-nonblank", 'b'), ("show-ends", 'E'), ("number", 'n'),
    ("squeeze-blank", 's'), ("show-tabs", 'T'), ("show-nonprinting", 'v')]

def Display.ofCall (call : Call) : Display where
  numbers := call.has 'n' || call.has 'b'
  onlyFilled := call.has 'b'
  squeezes := call.has 's'
  ends := call.has 'E' || call.has 'A' || call.has 'e'
  tabs := call.has 'T' || call.has 'A' || call.has 't'
  marks := call.has 'v' || call.has 'A' || call.has 'e' || call.has 't'

/-- How many octets are taken of an input without end. -/
def plenty : Nat := 1048576

def cat : Tool := withOptions "cat" catOptions fun call => do
  let display := Display.ofCall call
  let paths := if call.operands.isEmpty then [['-']] else call.operands
  let mut status := 0
  let mut place := Display.start
  for path in paths do
    if display.isPlain && path = ['-'] then
      status := max status (← Act.readThrough Act.write)
    else if Octets.toText path ∈ endlessPaths then
      let _ ← Act.write (List.replicate plenty '\x00')
      Act.halt .endless
    else
      match ← contentOf path with
      | .ok cs =>
        let (out, last) := if display.isPlain then (cs, place) else display.render place cs
        place := last
        status := max status (← Act.write out)
      | .error e =>
        Act.complain (report "cat: " (Octets.toText path) e)
        status := 1
  return status

def teeOptions : Options where
  flags := "aip"
  names := [("append", 'a'), ("ignore-interrupts", 'i')]

def tee : Tool := withOptions "tee" teeOptions fun call => do
  let cs ← Act.readAll
  let mut status := 0
  for path in call.operands do
    match ← writeFile path (call.has 'a') cs with
    | none => pure ()
    | some e =>
      Act.complain (report "tee: " (Octets.toText path) e)
      status := 1
  finishing status cs

/-! ## Starts and ends -/

/-- The octets of a number in which letters at the end stand for a factor. -/
def scaled? (cs : Octets) : Option Nat :=
  let digits := cs.takeWhile Char.isDigit
  let factor? : Option Nat := match String.ofList (cs.dropWhile Char.isDigit) with
    | "" | "c" => some 1
    | "b" => some 512
    | "kB" => some 1000
    | "k" | "K" | "KiB" => some 1024
    | "MB" => some 1000000
    | "m" | "M" | "MiB" => some 1048576
    | "GB" => some 1000000000
    | "G" | "GiB" => some 1073741824
    | _ => none
  if digits.isEmpty then none else factor?.map fun f => Text.natOfDigits digits * f

/-- How much of an input is taken: a number of lines or octets, and the sign in front of it. -/
structure Amount where
  octets : Bool
  sign : Option Char
  count : Nat

/-- The amount that a value of an option gives. -/
def Amount.parse? (octets : Bool) (cs : Octets) : Option Amount :=
  match cs with
  | '+' :: ds => (scaled? ds).map (⟨octets, some '+', ·⟩)
  | '-' :: ds => (scaled? ds).map (⟨octets, some '-', ·⟩)
  | ds => (scaled? ds).map (⟨octets, none, ·⟩)

def partOptions : Options where
  flags := "fFqsvz"
  valued := "cn"
  names := [("bytes", 'c'), ("lines", 'n'), ("quiet", 'q'), ("silent", 'q'), ("verbose", 'v'),
    ("follow", 'f'), ("zero-terminated", 'z')]

/-- The amount that a call asks for, or the word that gives none. -/
def Amount.ofCall (call : Call) : Except (Bool × Octets) Amount :=
  match (call.options.filter fun (c, _) => c = 'c' || c = 'n').getLast? with
  | none => .ok ⟨false, none, 10⟩
  | some (c, v) =>
    match Amount.parse? (c = 'c') v with
    | some a => .ok a
    | none => .error (c = 'c', v)

/-- The arguments in which a number behind a hyphen gives an amount as an option does; behind a plus
sign it does so only if `plus`. -/
def withAmount (plus : Bool) (args : List Octets) : List Octets :=
  let given (sign : Char) (ds : Octets) (rest : List Octets) : List Octets :=
    let letters := ds.dropWhile Char.isDigit
    let option := if letters.contains 'c' then 'c' else 'n'
    let signed := if sign = '+' then '+' :: ds.takeWhile Char.isDigit else ds.takeWhile Char.isDigit
    ['-', option] :: signed ::
      (if letters.contains 'f' then [['-', 'f']] else []) ++
      (if letters.contains 'q' then [['-', 'q']] else []) ++ rest
  match args with
  | ('-' :: d :: ds) :: rest => if d.isDigit then given '-' (d :: ds) rest else args
  | ('+' :: d :: ds) :: rest =>
    if plus && d.isDigit && rest.length ≤ 1 then given '+' (d :: ds) rest else args
  | args => args

def titleOf (name : Octets) : Octets :=
  let name := if name.isEmpty || name = ['-'] then "standard input".toList else name
  "==> ".toList ++ name ++ " <==\n".toList

/-- Parts of inputs, with titles if they are wanted. -/
def titled (call : Call) (inputs : List (Octets × Octets)) (part : Octets → Octets) : Octets :=
  let wanted := match call.lastOf? ['q', 'v'] with
    | some 'q' => false
    | some _ => true
    | none => 1 < call.operands.length
  if wanted then
    List.intercalate ['\n'] (inputs.map fun (name, cs) => titleOf name ++ part cs)
  else inputs.flatMap fun (_, cs) => part cs

def refuseAmount (tool : String) (octets : Bool) (word : Octets) : Act Nat :=
  refuse tool
    ("invalid number of " ++ (if octets then "bytes" else "lines") ++ ": " ++ shown word)

def Amount.cut (a : Amount) (pick : {α : Type} → List α → List α) (cs : Octets) : Octets :=
  if a.octets then pick cs else (pick (rawLines cs)).flatten

/-- The start of its inputs, as many lines or octets as asked for. -/
def head : Tool := fun args =>
  withOptions "head" partOptions (fun call => do
    match Amount.ofCall call with
    | .error (octets, word) => refuseAmount "head" octets word
    | .ok a =>
      let pick {α : Type} (xs : List α) : List α :=
        if a.sign = some '-' then xs.take (xs.length - a.count) else xs.take a.count
      let isEnough (cs : Octets) : Bool :=
        a.sign ≠ some '-' && a.count ≤ if a.octets then cs.length else cs.count '\n'
      if a.octets && call.operands.any fun p => Octets.toText p ∈ endlessPaths then
        Act.write (List.replicate a.count '\x00')
      else
        let (inputs, status) ←
          if call.operands.isEmpty then do
            let cs ← Act.readUntil isEnough
            pure ([([], cs)], 0)
          else contents (openReport "head") call.operands
        finishing status (titled call inputs (a.cut pick))) 1 (withAmount false args)

/-- The end of its inputs, as many lines or octets as asked for. -/
def tail : Tool := fun args =>
  withOptions "tail" partOptions (fun call => do
    match Amount.ofCall call with
    | .error (octets, word) => refuseAmount "tail" octets word
    | .ok a =>
      let pick {α : Type} (xs : List α) : List α :=
        if a.sign = some '+' then xs.drop (a.count - 1) else xs.drop (xs.length - a.count)
      let (inputs, status) ← contents (openReport "tail") call.operands
      let status ← finishing status (titled call inputs (a.cut pick))
      if call.has 'f' || call.has 'F' then Act.halt .endless
      return status) 1 (withAmount true args)

def dd : Tool := fun args => do
  let given (name : String) : Option Octets :=
    args.findSome? fun a => Text.dropStart? (name ++ "=").toList a
  let size (name : String) : Nat := (((given name).or (given "bs")).bind scaled?).getD 512
  let blocks (name : String) : Option Nat := (given name).bind scaled?
  let amount? := (blocks "count").map (· * size "ibs")
  let dropped := ((blocks "skip").getD 0) * size "ibs"
  let path := (given "if").getD ['-']
  let found ← if Octets.toText path ∈ endlessPaths then
      match amount? with
      | some n => pure (.ok (List.replicate (n + dropped) '\x00'))
      | none => Act.halt .endless
    else contentOf path
  let failed (path : Octets) (e : IoError) : Act Nat :=
    refuse "dd" ("failed to open " ++ shown path ++ ": " ++ reason e)
  match found with
  | .error e => failed path e
  | .ok cs =>
    let cs := cs.drop dropped
    let cs := (amount?.map cs.take).getD cs
    match given "of" with
    | none => Act.write cs
    | some target =>
      match ← writeFile target false cs with
      | some e => failed target e
      | none => return 0

/-! ## Other orders -/

/-- The lines of its inputs, the last one first. -/
def tac : Tool := withOptions "tac" { flags := "br", valued := "s" } fun call => do
  let problem : Report := fun path e =>
    if e = .isDirectory then "tac: " ++ path ++ ": read error: Invalid argument"
    else "tac: failed to open '" ++ path ++ "' for reading: " ++ reason e
  let (inputs, status) ← contents problem call.operands
  finishing status (inputs.flatMap fun (_, cs) => (rawLines cs).reverse.flatten)

/-- The lines of its inputs, each read backwards. -/
def rev : Tool := withOptions "rev" { flags := "" } fun call => do
  let (inputs, status) ← contents (report "rev: cannot open ") call.operands
  let turned (l : Octets) : Octets :=
    if l.getLast? = some '\n' then l.dropLast.reverse ++ ['\n'] else l.reverse
  finishing status (inputs.flatMap fun (_, cs) => (rawLines cs).flatMap turned)

end Tool

end Punctual.Shell
