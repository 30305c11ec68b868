import Punctual.Shell.Record.Basic
import Punctual.Shell.Written
import Std.Data.HashMap

/-!
# Values and tables

A value is a number or a text. A text that comes from outside counts as a number where it is
compared, if it is written as one. Tables are walked through in the order of the hashes of their
keys, and those with the same hash from the one that was used last.
-/

namespace Punctual.Shell.Record

/-! ## Numbers -/

/-- A sign in front of octets, whether it is a minus, and the octets behind it. -/
def splitSign (cs : Octets) : Bool × Octets :=
  match cs with
  | '-' :: cs => (true, cs)
  | '+' :: cs => (false, cs)
  | cs => (false, cs)

/-- Octets with the digits of a base in front, which a point may divide: the digits, how many of them
stand behind the point, and the octets behind them. -/
def digitsInFront (base : Nat) (cs : Octets) : Octets × Nat × Octets :=
  let whole := Written.digitsOf base cs
  match cs.drop whole.length with
  | '.' :: rest =>
    let places := Written.digitsOf base rest
    if whole.isEmpty && places.isEmpty then ([], 0, cs)
    else (whole ++ places, places.length, rest.drop places.length)
  | rest => (whole, 0, rest)

/-- An exponent behind a letter in front of octets, and the octets behind it. -/
def exponentInFront (letter : Char) (cs : Octets) : Int × Octets :=
  match cs with
  | c :: rest =>
    let (isNegative, ds) := splitSign rest
    let own := ds.takeWhile Char.isDigit
    if c.toLower = letter && !own.isEmpty then
      let n : Int := Text.natOfDigits own
      (if isNegative then -n else n, ds.drop own.length)
    else (0, cs)
  | [] => (0, [])

def numberWords : List (String × Float) :=
  [("infinity", 1.0 / 0.0), ("inf", 1.0 / 0.0), ("nan", 0.0 / 0.0)]

/-- The number in front of octets, and the octets behind it; it is zero, with nothing taken, if there is
none. -/
def numberInFront (cs : Octets) : Float × Octets :=
  let (isNegative, body) := splitSign (cs.dropWhile isLayout)
  let signed (x : Float) : Float := if isNegative then -x else x
  match body with
  | '0' :: x :: rest =>
    let (digits, places, behind) := digitsInFront 16 rest
    if x.toLower = 'x' && !digits.isEmpty then
      let (e, behind) := exponentInFront 'p' behind
      let scale := e - 4 * (places : Int)
      (signed (Float.ofNat (Written.numberOf 16 digits) * Float.pow 2 (Float.ofInt scale)), behind)
    else decimal isNegative body
  | c :: _ =>
    if c.isDigit || c = '.' then decimal isNegative body
    else
      let word := (body.take 8).map Char.toLower
      match numberWords.find? fun (w, _) => w.toList.isPrefixOf word with
      | some (w, x) => (signed x, body.drop w.length)
      | none => (0, cs)
  | [] => (0, cs)
where
  decimal (isNegative : Bool) (body : Octets) : Float × Octets :=
    let (digits, places, behind) := digitsInFront 10 body
    if digits.isEmpty then (0, cs)
    else
      let (e, behind) := exponentInFront 'e' behind
      (Number.nearestFloat isNegative (Text.natOfDigits digits) (e - places), behind)

/-- The number that octets are: they start like one, end in a digit or a point, and are nothing else
but for blanks around. -/
def wholeNumber? (cs : Octets) : Option Float :=
  let cs := Text.dropEndWhile isLayout (cs.dropWhile isLayout)
  let startsWell := cs.head?.any fun c => c.isDigit || c == '+' || c == '-' || c == '.'
  let endsWell := cs.getLast?.any fun c => c.isDigit || c == '.'
  if startsWell && endsWell then
    match numberInFront cs with
    | (x, []) => some x
    | _ => none
  else none

/-- The integer towards zero; infinite numbers are very great ones. -/
def truncated (x : Float) : Int :=
  match Number.Binary64.ofFloat x with
  | .nan => -Written.maxInteger - 1
  | .infinite isNegative => if isNegative then -Written.maxInteger - 1 else Written.maxInteger
  | .finite isNegative m q =>
    let n : Int := if 0 ≤ q then (m * Nat.pow 2 q.toNat : Nat) else (m / Nat.pow 2 (-q).toNat : Nat)
    if isNegative then -n else n

/-- The integer that a number is, if it is none that is too great. -/
def whole? (x : Float) : Option Int :=
  if Float.floor x == x && Float.abs x < 2e19 then
    let n := truncated x
    if n ≤ 18446744073709551616 ∧ -Written.maxInteger - 1 ≤ n then
      some (min n 18446744073709551615)
    else none
  else none

/-! ## Values -/

/-- A value. -/
inductive Value
  /-- Nothing has been assigned. -/
  | missing
  | number (x : Float)
  | text (cs : Octets)
  /-- Octets from outside. -/
  | given (cs : Octets)

/-- Why a format cannot be filled in. -/
inductive FormatFlaw
  | tooFewArguments
  | improper (number : Nat)

/-- The pieces of a format whose escapes have been read before. -/
def formatPieces : Nat → Octets → List Written.Piece
  | 0, _ | _, [] => []
  | fuel + 1, '%' :: '%' :: cs => .plain '%' :: formatPieces fuel cs
  | fuel + 1, '%' :: cs =>
    let (p, rest) := Written.directive cs
    p :: formatPieces fuel rest
  | fuel + 1, c :: cs => .plain c :: formatPieces fuel cs

def numberText (format : Octets) (x : Float) : Octets :=
  if format = "%.6g".toList then (Number.writeBrief 6 x).toList
  else
    (Written.fillAll (formatPieces format.length format) [(Number.writePlain x).toList]).octets

namespace Value

def toNumber : Value → Float
  | missing => 0
  | number x => x
  | text cs | given cs => (numberInFront cs).1

/-- The text of a value; numbers that are no integers are written in a format. -/
def toText (format : Octets) : Value → Octets
  | missing => []
  | text cs | given cs => cs
  | number x =>
    match whole? x with
    | some n => Octets.ofInt n
    | none => if x.isNaN then "-nan".toList else numberText format x

/-- The number that a value counts as where it is compared. -/
def measure? : Value → Option Float
  | missing => some 0
  | number x => some x
  | text _ => none
  | given cs => wholeNumber? cs

def isTrue : Value → Bool
  | missing => false
  | number x => x != 0
  | text cs => !cs.isEmpty
  | given cs =>
    match wholeNumber? cs with
    | some x => x != 0
    | none => !cs.isEmpty

def ofBool (b : Bool) : Value :=
  number (if b then 1 else 0)

def ofNat (n : Nat) : Value :=
  number (Float.ofNat n)

/-- The order of two values: of their numbers if both count as numbers, and else of their texts. -/
def order (format : Octets) (a b : Value) : Ordering :=
  match a.measure?, b.measure? with
  | some x, some y => if x < y then .lt else if y < x then .gt else .eq
  | _, _ =>
    let s := a.toText format
    let t := b.toText format
    if s = t then .eq else if s.precedes t then .lt else .gt

def argument (format : Octets) (kind : Char) (v : Value) : Octets :=
  if kind = 's' then v.toText format
  else if kind = 'c' then
    match v with
    | number x => [.ofNat (truncated x % 256).toNat]
    | v => (v.toText format).take 1
  else if "eEfFgG".toList.contains kind then (Number.writePlain v.toNumber).toList
  else Octets.ofInt (truncated v.toNumber)

end Value

/-- A relation holds between values in an order. -/
def Relation.holds (r : Relation) (o : Ordering) : Bool :=
  match r with
  | .less => o.isLT
  | .atMost => o.isLE
  | .same => o.isEq
  | .different => o.isNe
  | .atLeast => o.isGE
  | .more => o.isGT

def formatKinds : List Char := "cdiouxXeEfFgGs".toList

/-- A measure, which the next value may give, and the values behind it. -/
def takeMeasure (m : Written.Measure) (vs : List Value) : Option (Int × List Value) :=
  match m, vs with
  | .fixed n, vs => some (n, vs)
  | .given, v :: vs => some (truncated v.toNumber, vs)
  | .given, [] => none

/-- A directive whose measures are known, and the values behind those that give them. -/
def settled (d : Written.Directive) (vs : List Value) :
    Option (Written.Directive × List Value) := do
  let (width, vs) ← takeMeasure d.width vs
  let (places, vs) ← match d.places with
    | none => some (none, vs)
    | some m => (takeMeasure m vs).map fun (n, vs) => (if n < 0 then none else some n, vs)
  let d := { d with
    width := .fixed width.natAbs
    leftward := d.leftward || decide (width < 0)
    places := places.map fun n => .fixed n.toNat }
  return (d, vs)

/-- Fills the pieces of a format with values; the number counts directives. -/
def fillIn (format : Octets) : Nat → List Written.Piece → List Value → Octets × Option FormatFlaw
  | _, [], _ => ([], none)
  | n, .plain c :: ps, vs =>
    let (cs, flaw) := fillIn format n ps vs
    (c :: cs, flaw)
  | n, .wrong _ :: _, _ => ([], some (.improper n))
  | n, .directive d :: ps, vs =>
    if !formatKinds.contains d.kind then ([], some (.improper n))
    else
      match settled d vs with
      | some (d, v :: vs) =>
        let own := (Written.fillAll [.directive d] [v.argument format d.kind]).octets
        let (cs, flaw) := fillIn format (n + 1) ps vs
        (own ++ cs, flaw)
      | _ => ([], some .tooFewArguments)

/-! ## Tables -/

/-- What a value of a table is found by. -/
structure Key where
  name : Octets
  /-- The integer that it was found by, if it was none but a number. -/
  number : Option Int

def Value.toKey (format : Octets) (v : Value) : Key :=
  match v with
  | .number x => ⟨v.toText format, (whole? x).filter fun n => n.natAbs < 2147483648⟩
  | v => ⟨v.toText format, none⟩

/-- A value of a table, and when it was last used by its name and by its number. -/
structure Entry where
  value : Value
  named : Option Nat
  counted : Option (Int × Nat)

/-- A table. Keys that are numbers get names when the first name is used. -/
structure Table where
  entries : Std.HashMap Octets Entry
  /-- How often the table was used. -/
  uses : Nat
  isNamed : Bool

namespace Table

def empty : Table :=
  ⟨∅, 1, false⟩

def size (t : Table) : Nat :=
  t.entries.size

/-- The number of hashes that keys are sorted by. -/
def buckets (t : Table) : Nat → Nat → Nat
  | 0, n => n
  | fuel + 1, n => if 12 * n < t.size then t.buckets fuel (2 * n) else n

def leastBuckets : Nat := 64

def hashOf (cs : Octets) : Nat :=
  (cs.foldl (fun (h : UInt32) c => (h ^^^ c.toNat.toUInt32) * 16777619) 2166136261).toNat

/-- Gives names to the keys that have none, those that count higher first. -/
def withNames (t : Table) : Table :=
  if t.isNamed then t
  else
    let n := t.buckets 40 leastBuckets
    let loose := t.entries.toList.filterMap fun (k, e) =>
      match e.named, e.counted with
      | none, some (i, use) => some (k, (i % (n : Int)).toNat, use, e)
      | _, _ => none
    let ordered := loose.mergeSort fun (_, i, u, _) (_, j, v, _) => i < j || (i == j && v ≤ u)
    let named := ordered.foldl (fun (t : Table) (k, _, _, e) =>
      { t with
        entries := t.entries.insert k { e with named := some t.uses }
        uses := t.uses + 1 }) t
    { named with isNamed := true }

def use (t : Table) (k : Key) (e : Entry) : Table :=
  let now := t.uses
  let e := match k.number, e.counted with
    | some _, some (i, _) => { e with counted := some (i, now) }
    | some i, none => { e with named := some now, counted := some (i, now) }
    | none, _ => { e with named := some now }
  { t with entries := t.entries.insert k.name e, uses := now + 1 }

/-- The value of a key, and the table after it is used. -/
def find (t : Table) (k : Key) : Option Value × Table :=
  let t := if k.number.isNone then t.withNames else t
  match t.entries[k.name]? with
  | none => (none, t)
  | some e => (some e.value, t.use k e)

def put (t : Table) (k : Key) (v : Value) : Table :=
  let t := if k.number.isNone then t.withNames else t
  match t.entries[k.name]? with
  | some e => t.use k { e with value := v }
  | none =>
    let now := t.uses
    let e : Entry := {
      value := v
      named := if t.isNamed then some now else none
      counted := k.number.map (·, now) }
    { t with entries := t.entries.insert k.name e, uses := now + 1 }

def erase (t : Table) (k : Key) : Table :=
  let entries := t.entries.erase k.name
  if entries.isEmpty then empty else { t with entries }

/-- The keys in the order in which they are walked through, and the table with names for all of
them. -/
def keys (t : Table) : List Octets × Table :=
  let t := t.withNames
  let n := t.buckets 40 leastBuckets
  let places := t.entries.toList.map fun (k, e) => (k, hashOf k % n, e.named.getD 0)
  ((places.mergeSort fun (_, i, u) (_, j, v) => i < j || (i == j && v ≤ u)).map Prod.fst, t)

/-- The table of some values, numbered from one on. -/
def ofList (vs : List Value) : Table :=
  (vs.foldl (fun ((t : Table), (n : Nat)) v =>
    (t.put ⟨Octets.ofNat n, some n⟩ v, n + 1)) (empty, 1)).1

end Table

end Punctual.Shell.Record
