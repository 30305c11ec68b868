import Punctual.Json.Value
import Punctual.Number.Written

/-!
# Writing data texts

Texts are written between quotation marks with escapes for marks, backslashes and controls only.
A value is written compactly, without any blank, or spread over lines, each level two columns
further in.
-/

namespace Punctual.Json

def hexChar (n : Nat) : Char :=
  Nat.digitChar n

def escape (c : Char) : List Char :=
  if c = '"' then ['\\', '"']
  else if c = '\\' then ['\\', '\\']
  else if c = '\x08' then ['\\', 'b']
  else if c = '\x0C' then ['\\', 'f']
  else if c = '\n' then ['\\', 'n']
  else if c = '\r' then ['\\', 'r']
  else if c = '\t' then ['\\', 't']
  else if c.toNat < 0x20 then
    ['\\', 'u', '0', '0', hexChar (c.toNat / 16), hexChar (c.toNat % 16)]
  else [c]

def writeText (s : String) : String :=
  "\"" ++ .ofList (s.toList.flatMap escape) ++ "\""

def writeList (items : List String) : String :=
  "[" ++ ",".intercalate items ++ "]"

/-- An object of written values without blanks. -/
def writeObject (members : List (String × String)) : String :=
  "\x7b" ++ ",".intercalate (members.map fun (name, v) => writeText name ++ ":" ++ v) ++ "\x7d"

def indent (level : Nat) : String :=
  .ofList (List.replicate (2 * level) ' ')

/-- Items on lines of their own between brackets, or the brackets alone. -/
def spread (left right : String) (level : Nat) (items : List String) : String :=
  if items.isEmpty then left ++ right
  else
    left ++ "\n" ++ ",\n".intercalate (items.map (indent (level + 1) ++ ·)) ++ "\n" ++
      indent level ++ right

def spreadList (level : Nat) (items : List String) : String :=
  spread "[" "]" level items

def spreadObject (level : Nat) (members : List (String × String)) : String :=
  spread "\x7b" "\x7d" level (members.map fun (name, v) => writeText name ++ ": " ++ v)

mutual

def Value.write : Value → String
  | .null => "null"
  | .bool b => if b then "true" else "false"
  | .int n => toString n
  | .float x => Number.writeData x
  | .text s => writeText s
  | .list vs => writeList (writeValues vs)
  | .object ms => writeObject (writeMembers ms)

/-- The values of a list, each written without blanks. -/
def writeValues : List Value → List String
  | [] => []
  | v :: vs => v.write :: writeValues vs

/-- The members of an object, each written without blanks. -/
def writeMembers : List (String × Value) → List (String × String)
  | [] => []
  | (name, v) :: ms => (name, v.write) :: writeMembers ms

end

mutual

/-- A value spread over lines, inside `level` lists and objects. -/
def Value.spread (level : Nat) : Value → String
  | .null => "null"
  | .bool b => if b then "true" else "false"
  | .int n => toString n
  | .float x => Number.writeData x
  | .text s => writeText s
  | .list vs => spreadList level (spreadValues (level + 1) vs)
  | .object ms => spreadObject level (spreadMembers (level + 1) ms)

/-- The values of a list, each spread over lines. -/
def spreadValues (level : Nat) : List Value → List String
  | [] => []
  | v :: vs => v.spread level :: spreadValues level vs

/-- The members of an object, each spread over lines. -/
def spreadMembers (level : Nat) : List (String × Value) → List (String × String)
  | [] => []
  | (name, v) :: ms => (name, v.spread level) :: spreadMembers level ms

end

end Punctual.Json
