import Punctual.Text.Blank
import Punctual.Text.Digit
import Punctual.Text.Utf8

/-!
# Octets

Programs read and write bytes, not characters. A list of octets is a list of characters each of
which stands for the byte of its number, so that bytes can be written and compared as characters.
-/

namespace Punctual.Shell

abbrev Octets := List Char

/-- Octets are hashed as lists of characters. -/
instance : Hashable Octets :=
  @instHashableList Char instHashableChar

namespace Octets

def ofBytes (bytes : ByteArray) : Octets :=
  bytes.toList.map fun b => .ofNat b.toNat

def ofText (s : String) : Octets :=
  ofBytes (Text.encode s)

def toBytes (cs : Octets) : List UInt8 :=
  cs.map fun c => c.toNat.toUInt8

def toByteArray (cs : Octets) : ByteArray :=
  ⟨(toBytes cs).toArray⟩

/-- The text that some octets are; what is no UTF-8 is replaced. -/
def toText (cs : Octets) : String :=
  Text.decodeLossy (toByteArray cs)

def ofNat (n : Nat) : Octets :=
  Nat.toDigits 10 n

def ofInt (n : Int) : Octets :=
  (toString n).toList

/-- The octets come before others in the order of their numbers. -/
def precedes : Octets → Octets → Bool
  | _, [] => false
  | [], _ :: _ => true
  | c :: cs, d :: ds => c.toNat < d.toNat || (c == d && precedes cs ds)

end Octets

def isSpace (c : Char) : Bool :=
  c == ' ' || c == '\t'

def isLayout (c : Char) : Bool :=
  isSpace c || c == '\n'

def words (cs : Octets) : List Octets :=
  (go cs).filter fun w => !w.isEmpty
where
  go : Octets → List Octets
    | [] => [[]]
    | c :: cs =>
      if isLayout c then [] :: go cs
      else match go cs with
        | [] => [[c]]
        | w :: ws => (c :: w) :: ws

/-- The integer that octets denote, with blanks around it. -/
def integer? (cs : Octets) : Option Int :=
  Text.int? (Text.dropEndWhile isLayout (cs.dropWhile isLayout))

end Punctual.Shell
