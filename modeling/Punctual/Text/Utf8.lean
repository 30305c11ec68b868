/-!
# Lossy reading of UTF-8

Bytes that may be no UTF-8 are still read as text: each longest run of bytes that starts a
character but does not complete it, and each byte that can start none, reads as the replacement
character. Well-formed bytes read as themselves.

The reader is a machine that takes one byte at a time. Between characters it owes nothing; inside
one it knows how many bytes are still owed, the range of the next one, and the bits read so far.
-/

namespace Punctual.Text

/-- Where the reader stands inside a character. -/
structure Pending where
  /-- How many bytes are still owed, at least one. -/
  owed : Nat
  /-- The least value of the next byte. -/
  low : Nat
  /-- The greatest value of the next byte. -/
  high : Nat
  /-- The bits of the character read so far. -/
  bits : Nat

/-- What a byte between two characters is: a character of its own, the start of one, or neither. -/
inductive Lead
  | whole (c : Char)
  | start (p : Pending)
  | invalid

/-- Reads a byte between two characters. -/
def Lead.ofByte (b : Nat) : Lead :=
  if b ≤ 0x7F then .whole (.ofNat b)
  else if 0xC2 ≤ b ∧ b ≤ 0xDF then .start ⟨1, 0x80, 0xBF, b - 0xC0⟩
  else if b = 0xE0 then .start ⟨2, 0xA0, 0xBF, 0⟩
  else if b = 0xED then .start ⟨2, 0x80, 0x9F, 0xD⟩
  else if 0xE1 ≤ b ∧ b ≤ 0xEF then .start ⟨2, 0x80, 0xBF, b - 0xE0⟩
  else if b = 0xF0 then .start ⟨3, 0x90, 0xBF, 0⟩
  else if 0xF1 ≤ b ∧ b ≤ 0xF3 then .start ⟨3, 0x80, 0xBF, b - 0xF0⟩
  else if b = 0xF4 then .start ⟨3, 0x80, 0x8F, 4⟩
  else .invalid

/-- The replacement character. -/
def replacement : Char := '\uFFFD'

/-- The characters that the bytes read as, from inside the character `p` if there is one. -/
def decodeFrom (p : Option Pending) : List UInt8 → List Char
  | [] => if p.isSome then [replacement] else []
  | b :: bs =>
    let fresh : List Char :=
      match Lead.ofByte b.toNat with
      | .whole c => c :: decodeFrom none bs
      | .start q => decodeFrom (some q) bs
      | .invalid => replacement :: decodeFrom none bs
    match p with
    | none => fresh
    | some q =>
      if q.low ≤ b.toNat ∧ b.toNat ≤ q.high then
        let bits := q.bits * 64 + (b.toNat - 0x80)
        if q.owed ≤ 1 then .ofNat bits :: decodeFrom none bs
        else decodeFrom (some ⟨q.owed - 1, 0x80, 0xBF, bits⟩) bs
      else replacement :: fresh

/-- The text that the bytes read as, with the replacement character for what is no UTF-8. -/
def decodeLossy (bytes : ByteArray) : String :=
  .ofList (decodeFrom none bytes.toList)

/-- The bytes of a text. -/
def encode (s : String) : ByteArray :=
  s.toUTF8

/-- The text that the bytes are, if they are UTF-8. -/
def decode? (bytes : ByteArray) : Option String :=
  String.fromUTF8? bytes

end Punctual.Text
