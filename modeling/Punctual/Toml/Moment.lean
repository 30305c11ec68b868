import Punctual.Text.Digit

/-!
# Moments

A moment is a date, a time of the day, or both, and then perhaps with a distance from universal
time. `Moment.parse?` reads one and `Moment.text` writes it in one form: letters in upper case,
parts of a second down to the nanosecond and without zeros at their end.

Main statement: what the parser gives is a day of the calendar (`Day.parse?_isValid`).
-/

namespace Punctual.Toml

/-- A number of exactly `width` digits at the head of some characters, and the rest. -/
def fixedNumber? (width : Nat) (cs : List Char) : Option (Nat × List Char) :=
  let ds := cs.takeWhile Char.isDigit
  if ds.length = width then some (Text.natOfDigits ds, cs.dropWhile Char.isDigit) else none

def behind? (c : Char) : List Char → Option (List Char)
  | [] => none
  | d :: cs => if d = c then some cs else none

/-- A number with zeros in front of it up to `width` digits. -/
def zeroPadded (width n : Nat) : List Char :=
  let ds := Nat.toDigits 10 n
  List.replicate (width - ds.length) '0' ++ ds

/-! ## Days -/

/-- A year, a month and a day. -/
structure Day where
  year : Nat
  month : Nat
  day : Nat
  deriving DecidableEq

namespace Day

def isLeapYear (year : Nat) : Bool :=
  year % 4 == 0 && (year % 100 != 0 || year % 400 == 0)

def daysOf (year month : Nat) : Nat :=
  if month = 2 then if isLeapYear year then 29 else 28
  else if month = 4 ∨ month = 6 ∨ month = 9 ∨ month = 11 then 30
  else 31

def IsValid (d : Day) : Prop :=
  1 ≤ d.month ∧ d.month ≤ 12 ∧ 1 ≤ d.day ∧ d.day ≤ daysOf d.year d.month

instance (d : Day) : Decidable d.IsValid :=
  inferInstanceAs (Decidable (_ ∧ _))

/-- A day at the head of some characters, and the rest. -/
def parse? (cs : List Char) : Option (Day × List Char) := do
  let (year, cs) ← fixedNumber? 4 cs
  let (month, cs) ← fixedNumber? 2 (← behind? '-' cs)
  let (day, cs) ← fixedNumber? 2 (← behind? '-' cs)
  let d : Day := ⟨year, month, day⟩
  if d.IsValid then some (d, cs) else none

theorem parse?_isValid {cs rest : List Char} {d : Day} (h : parse? cs = some (d, rest)) :
    d.IsValid := by
  simp only [parse?, Option.bind_eq_bind, Option.bind_eq_some_iff, Prod.exists] at h
  obtain ⟨_, _, -, _, -, _, _, -, _, -, _, _, -, h⟩ := h
  split at h
  · next hd =>
    simp only [Option.some.injEq, Prod.mk.injEq] at h
    exact h.1 ▸ hd
  · simp at h

def text (d : Day) : List Char :=
  zeroPadded 4 d.year ++ '-' :: zeroPadded 2 d.month ++ '-' :: zeroPadded 2 d.day

end Day

/-! ## Times of the day -/

/-- A time of the day. The second may be left out; the nanoseconds belong to a second. -/
structure Clock where
  hour : Nat
  minute : Nat
  second : Option Nat
  nanos : Option Nat
  deriving DecidableEq

namespace Clock

/-- The nanoseconds that the digits behind a point denote; digits behind the ninth are dropped. -/
def nanosOf (ds : List Char) : Nat :=
  let kept := ds.take 9
  Text.natOfDigits kept * Nat.pow 10 (9 - kept.length)

/-- The second of a time and its parts at the head of some characters, and the rest. -/
def secondPart? (cs : List Char) : Option (Option Nat × Option Nat × List Char) :=
  match behind? ':' cs with
  | none => some (none, none, cs)
  | some cs => do
    let (second, cs) ← fixedNumber? 2 cs
    match behind? '.' cs with
    | none => return (some second, none, cs)
    | some cs =>
      let ds := cs.takeWhile Char.isDigit
      if ds.isEmpty then none
      return (some second, some (nanosOf ds), cs.dropWhile Char.isDigit)

/-- A time at the head of some characters, and the rest. A minute may have a second more. -/
def parse? (cs : List Char) : Option (Clock × List Char) := do
  let (hour, cs) ← fixedNumber? 2 cs
  let (minute, cs) ← fixedNumber? 2 (← behind? ':' cs)
  let (second, nanos, cs) ← secondPart? cs
  if hour ≤ 23 ∧ minute ≤ 59 ∧ second.getD 0 ≤ 60 then some (⟨hour, minute, second, nanos⟩, cs)
  else none

/-- The digits of nanoseconds without the zeros at their end; one digit always stays. -/
def placesText (nanos : Nat) : List Char :=
  let ds := ((zeroPadded 9 nanos).reverse.dropWhile (· == '0')).reverse
  if ds.isEmpty then ['0'] else ds

def text (c : Clock) : List Char :=
  zeroPadded 2 c.hour ++ ':' :: zeroPadded 2 c.minute ++
    ((c.second.map fun s => ':' :: zeroPadded 2 s).getD []) ++
    ((c.nanos.map fun n => '.' :: placesText n).getD [])

end Clock

/-! ## Distances from universal time -/

/-- Universal time itself, or a distance from it in minutes. -/
inductive Offset
  | universal
  | minutes (n : Int)
  deriving DecidableEq

namespace Offset

def parse? : List Char → Option (Offset × List Char)
  | [] => none
  | sign :: cs =>
    if sign = 'Z' ∨ sign = 'z' then some (.universal, cs)
    else if sign = '+' ∨ sign = '-' then do
      let (h, cs) ← fixedNumber? 2 cs
      let (m, cs) ← fixedNumber? 2 (← behind? ':' cs)
      let total : Int := h * 60 + m
      if h ≤ 23 ∧ m ≤ 59 then
        some (.minutes (if sign = '-' then -total else total), cs)
      else none
    else none

/-- The text of an offset; no distance has a plus sign. -/
def text : Offset → List Char
  | .universal => ['Z']
  | .minutes n =>
    (if n < 0 then '-' else '+') :: zeroPadded 2 (n.natAbs / 60) ++
      ':' :: zeroPadded 2 (n.natAbs % 60)

end Offset

/-! ## Moments -/

/-- A moment. -/
structure Moment where
  day : Option Day
  clock : Option Clock
  offset : Option Offset
  deriving DecidableEq

namespace Moment

/-- The character may stand between a day and a time. -/
def isSeparator (c : Char) : Bool :=
  c == 'T' || c == 't' || c == ' '

/-- A time behind a day, and the offset behind it. -/
def parseOn? (d : Day) (cs : List Char) : Option Moment := do
  let (clock, cs) ← Clock.parse? cs
  match cs with
  | [] => return ⟨some d, some clock, none⟩
  | cs =>
    match ← Offset.parse? cs with
    | (offset, []) => return ⟨some d, some clock, some offset⟩
    | _ => none

def parse? (cs : List Char) : Option Moment :=
  if (cs.dropWhile Char.isDigit).head? = some ':' then
    match Clock.parse? cs with
    | some (clock, []) => some ⟨none, some clock, none⟩
    | _ => none
  else
    match Day.parse? cs with
    | some (d, []) => some ⟨some d, none, none⟩
    | some (d, c :: cs) => if isSeparator c then parseOn? d cs else none
    | none => none

def text (m : Moment) : String :=
  let day := (m.day.map Day.text).getD []
  let separator := if m.day.isSome && m.clock.isSome then ['T'] else []
  let clock := (m.clock.map Clock.text).getD []
  let offset := (m.offset.map Offset.text).getD []
  .ofList (day ++ separator ++ clock ++ offset)

end Moment

end Punctual.Toml
