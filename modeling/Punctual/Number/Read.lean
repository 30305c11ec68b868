import Punctual.Text.Digit

/-!
# Reading floating point numbers

A decimal text reads as the floating point number nearest to it. Exponents far outside the range
of floating point numbers are decided by the position of the leading digit alone.
-/

namespace Punctual.Number

/-- The float nearest to `digits * 10 ^ exponent`. -/
def nearestFloat (negative : Bool) (digits : Nat) (exponent : Int) : Float :=
  let lead : Int := (Nat.toDigits 10 digits).length + exponent
  let magnitude : Float :=
    if digits = 0 then 0
    else if 400 < lead then 1.0 / 0.0
    else if lead < -400 then 0
    else if 0 ≤ exponent then Float.ofScientific digits false exponent.toNat
    else Float.ofScientific digits true (-exponent).toNat
  if negative then -magnitude else magnitude

/-- A text without its sign, and whether the sign was a minus. -/
def splitSign : List Char → Bool × List Char
  | '-' :: cs => (true, cs)
  | '+' :: cs => (false, cs)
  | cs => (false, cs)

/-- The exponent that follows a decimal: none, or a sign and at least one digit after `e`. -/
def exponent? : List Char → Option Int
  | [] => some 0
  | c :: cs => if c = 'e' ∨ c = 'E' then Text.int? cs else none

/-- The number that digits denote which may have a point among them and an exponent behind. -/
def unsignedFloat? (negative : Bool) (cs : List Char) : Option Float :=
  let whole := cs.takeWhile Char.isDigit
  let afterWhole := cs.dropWhile Char.isDigit
  let (places, rest) :=
    match afterWhole with
    | '.' :: r => (r.takeWhile Char.isDigit, r.dropWhile Char.isDigit)
    | r => ([], r)
  if whole.isEmpty && places.isEmpty then none
  else
    (exponent? rest).map fun e =>
      nearestFloat negative (Text.natOfDigits (whole ++ places)) (e - places.length)

/-- The number that a text denotes: decimal, infinite, or not a number. -/
def float? (cs : List Char) : Option Float :=
  let (negative, rest) := splitSign cs
  match String.ofList (rest.map Char.toLower) with
  | "inf" | "infinity" => some (if negative then -1.0 / 0.0 else 1.0 / 0.0)
  | "nan" => some (0.0 / 0.0)
  | _ => unsignedFloat? negative rest

end Punctual.Number
