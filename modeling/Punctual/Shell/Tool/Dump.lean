import Punctual.Shell.Tool.Copy

/-!
# Dumps

Octets are written as numbers or names, and in an alphabet of 64 characters.
-/

namespace Punctual.Shell

namespace Tool

/-! ## Numbers -/

/-- How the octets of a unit are written. -/
inductive DumpKind
  | named
  | character
  | signed
  | unsigned
  | octal
  | hexadecimal
  deriving DecidableEq

/-- How units are written: their kind and the number of their octets. -/
structure DumpForm where
  kind : DumpKind
  size : Nat
  /-- The characters of a line follow it. -/
  withText : Bool

namespace DumpForm

def lowNames : List String :=
  ["nul", "soh", "stx", "etx", "eot", "enq", "ack", "bel", "bs", "ht", "nl", "vt", "ff", "cr",
    "so", "si", "dle", "dc1", "dc2", "dc3", "dc4", "nak", "syn", "etb", "can", "em", "sub", "esc",
    "fs", "gs", "rs", "us", "sp"]

def nameOf (n : Nat) : String :=
  let n := n % 128
  if n = 127 then "del" else lowNames.getD n (String.singleton (.ofNat n))

def escapes : List (Nat × String) :=
  [(0, "\\0"), (7, "\\a"), (8, "\\b"), (9, "\\t"), (10, "\\n"), (11, "\\v"), (12, "\\f"),
    (13, "\\r")]

/-- Digits behind zeros that fill them up to a width. -/
def zeroFilled (width : Nat) (cs : Octets) : Octets :=
  List.replicate (width - cs.length) '0' ++ cs

/-- An octet as a character, an escape or three digits. -/
def characterOf (n : Nat) : Octets :=
  match (escapes.find? (·.1 = n)).map Prod.snd with
  | some e => e.toList
  | none => if 32 ≤ n ∧ n < 127 then [.ofNat n] else zeroFilled 3 (Nat.toDigits 8 n)

/-- How many digits the numbers of a size have at most in a base. -/
def digitsOf (base size : Nat) : Nat :=
  (Nat.toDigits base (Nat.pow 256 size - 1)).length

def width (f : DumpForm) : Nat :=
  match f.kind with
  | .named | .character => 3
  | .signed => (Nat.toDigits 10 (Nat.pow 256 f.size / 2)).length + 1
  | .unsigned => digitsOf 10 f.size
  | .octal => digitsOf 8 f.size
  | .hexadecimal => digitsOf 16 f.size

def unit (f : DumpForm) (bs : List Nat) : Octets :=
  let n := bs.foldr (fun b n => n * 256 + b) 0
  match f.kind with
  | .named => (nameOf n).toList
  | .character => characterOf n
  | .signed =>
    let bound : Nat := Nat.pow 256 f.size
    Octets.ofInt (if n < bound / 2 then n else n - bound)
  | .unsigned => Octets.ofNat n
  | .octal => zeroFilled f.width (Nat.toDigits 8 n)
  | .hexadecimal => zeroFilled f.width (Nat.toDigits 16 n)

def kindOf? : Char → Option DumpKind
  | 'd' => some .signed
  | 'u' => some .unsigned
  | 'o' => some .octal
  | 'x' => some .hexadecimal
  | _ => none

/-- The size in front of some octets, four if there is none, and the octets behind it. -/
def sizeAhead : Octets → Nat × Octets
  | 'C' :: cs => (1, cs)
  | 'S' :: cs => (2, cs)
  | 'I' :: cs => (4, cs)
  | 'L' :: cs => (8, cs)
  | cs =>
    let ds := cs.takeWhile Char.isDigit
    if ds.isEmpty then (4, cs) else (Text.natOfDigits ds, cs.drop ds.length)

def parse (all : Octets) : Nat → Octets → Except String (List DumpForm)
  | 0, _ | _, [] => .ok []
  | fuel + 1, c :: cs => do
    let (kind, size, rest) ←
      if c = 'a' then .ok (DumpKind.named, 1, cs)
      else if c = 'c' then .ok (.character, 1, cs)
      else match kindOf? c with
        | some k => .ok (k, sizeAhead cs)
        | none => .error ("invalid character '" ++ Octets.toText [c] ++ "' in type string " ++
            shown all)
    if !([1, 2, 4, 8].contains size) then
      .error ("invalid type string " ++ shown all ++ ";\nthis system doesn't provide a " ++
        toString size ++ "-byte integral type")
    else
      let withText := rest.head? == some 'z'
      return ⟨kind, size, withText⟩ :: (← parse all fuel (if withText then rest.tail else rest))

def ofLetter? : Char → Option DumpForm
  | 'a' => some ⟨.named, 1, false⟩
  | 'b' => some ⟨.octal, 1, false⟩
  | 'c' => some ⟨.character, 1, false⟩
  | 'd' => some ⟨.unsigned, 2, false⟩
  | 'D' => some ⟨.unsigned, 4, false⟩
  | 'h' | 'x' => some ⟨.hexadecimal, 2, false⟩
  | 'H' | 'X' => some ⟨.hexadecimal, 4, false⟩
  | 'i' => some ⟨.signed, 4, false⟩
  | 'I' | 'l' | 'L' => some ⟨.signed, 8, false⟩
  | 'B' | 'o' => some ⟨.octal, 2, false⟩
  | 'O' => some ⟨.octal, 4, false⟩
  | 's' => some ⟨.signed, 2, false⟩
  | _ => none

/-- The units of a block of octets; what is missing at its end counts as zero. -/
def units (f : DumpForm) : Nat → List Nat → List (List Nat)
  | 0, _ | _, [] => []
  | fuel + 1, bs =>
    let own := bs.take f.size
    (own ++ List.replicate (f.size - own.length) 0) :: units f fuel (bs.drop f.size)

/-- A block of octets in a form. The units of a full block are as wide together as `lineWidth`. -/
def line (f : DumpForm) (blockSize lineWidth : Nat) (bs : List Nat) : Octets :=
  let count := blockSize / f.size
  let pad := lineWidth - (f.width + 1) * count
  let shownUnits := f.units bs.length bs
  let text := (shownUnits.zipIdx).flatMap fun (u, i) =>
    let before := pad * (count - i) / count
    let behind := pad * (count - i - 1) / count
    ' ' :: padded (f.width + before - behind) (f.unit u)
  let gap := lineWidth - text.length
  if f.withText then
    text ++ List.replicate gap ' ' ++ "  >".toList ++
      bs.map (fun b => if 32 ≤ b ∧ b < 127 then .ofNat b else '.') ++ ['<']
  else text

end DumpForm

/-- How a dump is written. -/
structure Dump where
  forms : List DumpForm
  /-- The base of the offsets, if they are written. -/
  base : Option Nat
  blockSize : Nat
  /-- Blocks that are the same are all written. -/
  showsAll : Bool

namespace Dump

def offset (d : Dump) (n : Nat) : Octets :=
  match d.base with
  | none => []
  | some base => DumpForm.zeroFilled (if base = 16 then 6 else 7) (Nat.toDigits base n)

def lineWidth (d : Dump) : Nat :=
  (d.forms.map fun f => (f.width + 1) * (d.blockSize / f.size)).foldl max 0

def block (d : Dump) (place : Nat) (bs : List Nat) : List Octets :=
  (d.forms.zipIdx).map fun (f, i) =>
    let lead := d.offset place
    (if i = 0 then lead else List.replicate lead.length ' ') ++
      f.line d.blockSize d.lineWidth bs

/-- The lines of octets from an offset on. Blocks that are the same as the one before are written as
one star. -/
def lines (d : Dump) : Nat → Nat → Option (List Nat) → Bool → List Nat → List Octets
  | 0, _, _, _, _ => []
  | fuel + 1, place, before, starred, bs =>
    if bs.isEmpty then if d.base.isSome then [d.offset place] else []
    else
      let own := bs.take d.blockSize
      let next := place + own.length
      let rest := bs.drop d.blockSize
      if !d.showsAll && own.length = d.blockSize && before == some own then
        (if starred then [] else [['*']]) ++ lines d fuel next (some own) true rest
      else d.block place own ++ lines d fuel next (some own) false rest

end Dump

def odOptions : Options where
  flags := "abcdDhHiIlLoOsvxXB"
  valued := "AjNt"
  attached := "w"
  names := [("address-radix", 'A'), ("skip-bytes", 'j'), ("read-bytes", 'N'), ("format", 't'),
    ("output-duplicates", 'v'), ("width", 'w')]

def Dump.ofCall (call : Call) : Except String Dump := do
  let base ← match call.value? 'A' with
    | none | some ('o' :: _) => .ok (some 8)
    | some ('d' :: _) => .ok (some 10)
    | some ('x' :: _) => .ok (some 16)
    | some ('n' :: _) => .ok none
    | some cs =>
      .error ("invalid output address radix '" ++ Octets.toText (cs.take 1) ++
        "'; it must be one character from [doxn]")
  let forms ← call.options.mapM fun (c, v) =>
    if c = 't' then DumpForm.parse v v.length v
    else .ok (DumpForm.ofLetter? c).toList
  let forms := if forms.flatten.isEmpty then [⟨.octal, 2, false⟩] else forms.flatten
  let unitSize := (forms.map DumpForm.size).foldl max 1
  let width := match call.value? 'w' with
    | none => 16
    | some [] => 32
    | some ds => (Text.nat? ds).getD 16
  let blockSize := if width = 0 ∨ width % unitSize ≠ 0 then unitSize else width
  return ⟨forms, base, blockSize, call.has 'v'⟩

def od : Tool := withOptions "od" odOptions fun call => do
  let number (letter : Char) : Option Nat := (call.value? letter).bind scaled?
  match Dump.ofCall call with
  | .error text => refuse "od" text
  | .ok d =>
    let (cs, status) ←
      if call.operands.any fun p => Octets.toText p ∈ endlessPaths then
        pure (List.replicate ((number 'N').getD plenty + (number 'j').getD 0) '\x00', 0)
      else do
        let (inputs, status) ← contents (report "od: ") call.operands
        pure (inputs.flatMap Prod.snd, status)
    let dropped := (number 'j').getD 0
    if cs.length < dropped then refuse "od" "cannot skip past end of combined input"
    else
      let bs := (cs.drop dropped).map Char.toNat
      let bs := ((number 'N').map bs.take).getD bs
      finishing status (unlines (d.lines (bs.length + 1) dropped none false bs))

/-! ## The alphabet of 64 characters -/

def alphabet64 : Octets :=
  ("ABCDEFGHIJKLMNOPQRSTUVWXYZabcdefghijklmnopqrstuvwxyz0123456789+/").toList

def digit64 (n : Nat) : Char :=
  alphabet64.getD (n % 64) 'A'

/-- Octets in the alphabet: four characters for three octets. -/
def encode64 : List Nat → Octets
  | a :: b :: c :: bs =>
    digit64 (a / 4) :: digit64 (a % 4 * 16 + b / 16) :: digit64 (b % 16 * 4 + c / 64) ::
      digit64 c :: encode64 bs
  | [a, b] => [digit64 (a / 4), digit64 (a % 4 * 16 + b / 16), digit64 (b % 16 * 4), '=']
  | [a] => [digit64 (a / 4), digit64 (a % 4 * 16), '=', '=']
  | [] => []

/-- The octets that characters of the alphabet stand for, and whether all characters were read. -/
def decode64 : Octets → Octets × Bool
  | [] => ([], true)
  | a :: cs =>
    match alphabet64.idxOf? a, cs with
    | none, _ => ([], false)
    | some _, [] => ([], false)
    | some x, b :: cs =>
      match alphabet64.idxOf? b, cs with
      | none, _ => ([], false)
      | some y, [] => ([.ofNat (x * 4 + y / 16)], false)
      | some y, ['=', '='] => ([.ofNat (x * 4 + y / 16)], y % 16 = 0)
      | some y, c :: cs =>
        let first : Char := .ofNat (x * 4 + y / 16)
        match alphabet64.idxOf? c, cs with
        | none, _ => ([first], false)
        | some z, [] => ([first, .ofNat (y % 16 * 16 + z / 4)], false)
        | some z, ['='] => ([first, .ofNat (y % 16 * 16 + z / 4)], z % 4 = 0)
        | some z, d :: cs =>
          let second : Char := .ofNat (y % 16 * 16 + z / 4)
          match alphabet64.idxOf? d with
          | none => ([first, second], false)
          | some w =>
            let (out, isWhole) := decode64 cs
            (first :: second :: .ofNat (z % 4 * 64 + w) :: out, isWhole)

def inLines (width : Nat) : Nat → Octets → Octets
  | 0, _ | _, [] => []
  | fuel + 1, cs => cs.take width ++ '\n' :: inLines width fuel (cs.drop width)

def base64Options : Options where
  flags := "di"
  valued := "w"
  names := [("decode", 'd'), ("ignore-garbage", 'i'), ("wrap", 'w')]

/-- Writes its input in the alphabet of 64 characters, or reads it. -/
def base64 : Tool := withOptions "base64" base64Options fun call => do
  let word := (call.value? 'w').getD "76".toList
  match Text.nat? word, call.operands.drop 1 with
  | none, _ => refuse "base64" ("invalid wrap size: " ++ shown word)
  | some _, extra :: _ => decline "base64" ("extra operand " ++ shown extra)
  | some width, [] =>
    let problem : Report := fun path e =>
      if e = .isDirectory then "base64: read error: " ++ reason e else report "base64: " path e
    let (inputs, status) ← contents problem call.operands
    let cs := inputs.flatMap Prod.snd
    if status ≠ 0 then return status
    else if call.has 'd' then
      let counts (c : Char) : Bool :=
        if call.has 'i' then alphabet64.contains c || c = '=' else c ≠ '\n'
      let (out, isWhole) := decode64 (cs.filter counts)
      let status ← Act.write out
      if isWhole then return status
      else refuse "base64" "invalid input"
    else
      let out := encode64 (cs.map Char.toNat)
      Act.write (if width = 0 then out else inLines width out.length out)

end Tool

end Punctual.Shell
