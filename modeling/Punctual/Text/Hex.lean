/-!
# Hexadecimal texts

Every byte is written as two hexadecimal digits.
-/

namespace Punctual.Text

/-- The value of a hexadecimal digit. -/
def hexDigit? (c : Char) : Option Nat :=
  if '0' ≤ c ∧ c ≤ '9' then some (c.toNat - 0x30)
  else if 'a' ≤ c ∧ c ≤ 'f' then some (c.toNat - 0x61 + 10)
  else if 'A' ≤ c ∧ c ≤ 'F' then some (c.toNat - 0x41 + 10)
  else none

/-- The bytes of pairs of digits. -/
def bytesOfPairs : List Char → List UInt8
  | a :: b :: cs =>
    let value (c : Char) := (hexDigit? c).getD 0
    (value a * 16 + value b).toUInt8 :: bytesOfPairs cs
  | _ => []

/-- The bytes that a hexadecimal text denotes. -/
def bytesOfHex (s : String) : ByteArray :=
  ⟨(bytesOfPairs s.toList).toArray⟩

/-- The digits of a byte. -/
def hexPair (b : UInt8) : List Char :=
  [Nat.digitChar (b.toNat / 16), Nat.digitChar (b.toNat % 16)]

/-- The hexadecimal text of some bytes. -/
def hexOfBytes (bytes : ByteArray) : String :=
  .ofList (bytes.toList.flatMap hexPair)

end Punctual.Text
