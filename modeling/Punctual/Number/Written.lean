import Punctual.Number.Shortest

/-!
# Written floating point numbers

Two ways to write a floating point number start from the shortest decimal that reads back to the
number: *plain* writing uses no exponent at all, *data* writing uses one for very large and very
small numbers and always shows that the number is no integer. The others round the exact value,
ties to the even digit: *fixed* writing to a given number of places, *scientific* writing to a given
number of places behind the first digit, and *brief* writing to a given number of digits, in the
shorter one of these two ways.
-/

namespace Punctual.Number

def zeros (n : Nat) : List Char :=
  List.replicate n '0'

/-- The digits with a point after the first `point` of them; zeros fill the space up to it. -/
def placePoint (digits : List Char) (point : Int) : List Char × List Char :=
  if point ≤ 0 then (['0'], zeros (-point).toNat ++ digits)
  else
    let n := point.toNat
    (digits.take n ++ zeros (n - digits.length), digits.drop n)

def signText (negative : Bool) : String :=
  if negative then "-" else ""

/-- The number without exponent, and without a point if it is an integer. -/
def writePlain (x : Float) : String :=
  match Binary64.ofFloat x with
  | .nan => "NaN"
  | .infinite negative => signText negative ++ "inf"
  | .finite negative 0 _ => signText negative ++ "0"
  | .finite negative m q =>
    let d := shortest m q
    let (whole, places) := placePoint d.digitChars d.pointAfter
    signText negative ++ .ofList whole ++
      (if places.isEmpty then "" else "." ++ .ofList places)

/-- The number as data files hold it: without exponent if its point stands at most sixteen digits
after the first or five places before it, and then with at least one place. An exponent always has
a sign. -/
def writeData (x : Float) : String :=
  match Binary64.ofFloat x with
  | .nan => "null"
  | .infinite _ => "null"
  | .finite negative 0 _ => signText negative ++ "0.0"
  | .finite negative m q =>
    let d := shortest m q
    let point := d.pointAfter
    signText negative ++
      (if -5 < point ∧ point ≤ 16 then
        let (whole, places) := placePoint d.digitChars point
        .ofList whole ++ "." ++ (if places.isEmpty then "0" else .ofList places)
      else
        let (whole, places) := placePoint d.digitChars 1
        .ofList whole ++ (if places.isEmpty then "" else "." ++ .ofList places) ++ "e" ++
          (if 0 < point then "+" else "") ++ toString (point - 1))

def writeFixed (places : Nat) (x : Float) : String :=
  match Binary64.ofFloat x with
  | .nan => "NaN"
  | .infinite negative => signText negative ++ "inf"
  | .finite negative m q =>
    let (num, den) := fractionOf m q
    let scaled := roundDiv (num * Nat.pow 10 places) den
    let digits := Nat.toDigits 10 scaled
    let padded := zeros (places + 1 - digits.length) ++ digits
    let whole := padded.length - places
    signText negative ++ .ofList (padded.take whole) ++
      (if places = 0 then "" else "." ++ .ofList (padded.drop whole))

/-- The greatest `e` with `10 ^ e ≤ num / den`, if it lies at most `fuel` above `e`. -/
def leadExponent (num den : Nat) : Nat → Int → Int
  | 0, e => e
  | fuel + 1, e =>
    let isBelow := if 0 ≤ e + 1 then den * Nat.pow 10 (e + 1).toNat ≤ num
      else den ≤ num * Nat.pow 10 (-(e + 1)).toNat
    if isBelow then leadExponent num den fuel (e + 1) else e

/-- The digits of a fraction, one and `places` more, and the exponent of the first one. -/
def leadDigits (num den places : Nat) : List Char × Int :=
  let e := leadExponent num den 650 (-330)
  let shift := (places : Int) - e
  let n := if 0 ≤ shift then roundDiv (num * Nat.pow 10 shift.toNat) den
    else roundDiv num (den * Nat.pow 10 (-shift).toNat)
  let digits := Nat.toDigits 10 n
  if digits.length = places + 2 then (digits.dropLast, e + 1) else (digits, e)

/-- An exponent with a sign and at least two digits. -/
def exponentText (e : Int) : String :=
  let digits := Nat.toDigits 10 e.natAbs
  (if e < 0 then "e-" else "e+") ++ .ofList (zeros (2 - digits.length) ++ digits)

/-- The number with one digit in front of the point, `places` behind it, and an exponent. -/
def writeScientific (places : Nat) (x : Float) : String :=
  match Binary64.ofFloat x with
  | .nan => "nan"
  | .infinite negative => signText negative ++ "inf"
  | .finite negative m q =>
    let (digits, e) :=
      if m = 0 then (zeros (places + 1), 0)
      else
        let (num, den) := fractionOf m q
        leadDigits num den places
    signText negative ++ .ofList (digits.take 1) ++
      (if places = 0 then "" else "." ++ .ofList (digits.drop 1)) ++ exponentText e

/-- A number without the zeros behind its point that say nothing. -/
def dropPlainZeros (cs : List Char) : List Char :=
  if cs.contains '.' then
    let kept := (cs.reverse.dropWhile (· = '0'))
    (if kept.head? = some '.' then kept.tail else kept).reverse
  else cs

/-- The number with at most `digits` digits: with an exponent if that is at least `digits` or less than
minus four. -/
def writeBrief (digits : Nat) (x : Float) : String :=
  let digits := max 1 digits
  match Binary64.ofFloat x with
  | .nan => "nan"
  | .infinite negative => signText negative ++ "inf"
  | .finite negative 0 _ => signText negative ++ "0"
  | .finite _ m q =>
    let (num, den) := fractionOf m q
    let e := (leadDigits num den (digits - 1)).2
    if -4 ≤ e ∧ e < digits then
      .ofList (dropPlainZeros (writeFixed (digits - 1 - e).toNat x).toList)
    else
      let cs := (writeScientific (digits - 1) x).toList
      .ofList (dropPlainZeros (cs.takeWhile (· ≠ 'e')) ++ cs.dropWhile (· ≠ 'e'))

end Punctual.Number
