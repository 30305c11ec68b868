import Punctual.Json.Reader

/-!
# Access to data values

What a value holds if it is of one kind, and something empty if it is of another. These functions
suit data whose shape is known; data that has to be checked is read by a `Reader`.
-/

namespace Punctual.Json.Value

/-- The member of a name. An object without it, and a value that is no object, give null. -/
def get (v : Value) (name : String) : Value :=
  match v with
  | .object ms => (find? name ms).getD .null
  | _ => .null

def asText : Value → String
  | .text s => s
  | _ => ""

def asInt : Value → Int
  | .int n => n
  | _ => 0

def asNat (v : Value) : Nat :=
  v.asInt.toNat

def asBool : Value → Bool
  | .bool b => b
  | _ => false

def asFloat : Value → Float
  | .float x => x
  | .int n => Reader.floatOfInt n
  | _ => 0

def asList : Value → List Value
  | .list vs => vs
  | _ => []

def asMembers : Value → List (String × Value)
  | .object ms => ms
  | _ => []

def asTexts (v : Value) : List String :=
  v.asList.map asText

def item (v : Value) (i : Nat) : Value :=
  v.asList[i]?.getD .null

def optional {α : Type} (f : Value → α) : Value → Option α
  | .null => none
  | v => some (f v)

/-- What a value holds, or something in its place if it is null. -/
def orElse {α : Type} (default : α) (f : Value → α) (v : Value) : α :=
  (v.optional f).getD default

def textAt (v : Value) (name : String) : String :=
  (v.get name).asText

def textAt? (v : Value) (name : String) : Option String :=
  (v.get name).optional asText

def intAt (v : Value) (name : String) : Int :=
  (v.get name).asInt

def natAt (v : Value) (name : String) : Nat :=
  (v.get name).asNat

def listAt (v : Value) (name : String) : List Value :=
  (v.get name).asList

def textsAt (v : Value) (name : String) : List String :=
  (v.get name).asTexts

end Punctual.Json.Value
