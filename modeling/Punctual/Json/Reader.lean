import Punctual.Json.Token
import Punctual.Json.Value

/-!
# Reading data texts

A reader says which shape it expects at the head of a list of tokens and returns the value and the
tokens behind it. Readers are combined to readers of lists, objects and records, and the first
place, from left to right, where the text departs from the expected shape or from the grammar
decides the flaw that is reported.

The first argument of a reader is the number of lists and objects that may still be opened around
one another. Values that are skipped have no such bound.
-/

namespace Punctual.Json

/-- Reads a value at the head of a list of tokens. -/
abbrev Reader (α : Type) := Nat → List Token → Except Flaw (α × List Token)

/-- How many lists and objects can be open at once. -/
def maxDepth : Nat := 127

/-- The flaw of a head token that is not what its reader expects. -/
def mismatch : List Token → Flaw
  | [] => .endsEarly
  | .broken _ reading _ :: _ => reading
  | .number (.error f) :: _ => f
  | .text (.error f) :: _ => f
  | .comma :: _ | .colon :: _ | .listClose :: _ | .objectClose :: _ => .malformed
  | _ => .wrongShape

namespace Reader

variable {α β γ : Type}

def map (f : α → β) (r : Reader α) : Reader β := fun depth ts =>
  (r depth ts).map fun (a, rest) => (f a, rest)

/-! ## Plain values -/

def int (low high : Int) : Reader Int := fun _ ts =>
  match ts with
  | .number (.ok (.int n)) :: rest =>
    if low ≤ n ∧ n ≤ high then .ok (n, rest) else .error .wrongShape
  | ts => .error (mismatch ts)

/-- The floating point number nearest to an integer. -/
def floatOfInt (n : Int) : Float :=
  if n < 0 then -(Float.ofNat n.natAbs) else Float.ofNat n.natAbs

def float : Reader Float := fun _ ts =>
  match ts with
  | .number (.ok (.int n)) :: rest => .ok (floatOfInt n, rest)
  | .number (.ok (.float x)) :: rest => .ok (x, rest)
  | ts => .error (mismatch ts)

def bool : Reader Bool := fun _ ts =>
  match ts with
  | .bool b :: rest => .ok (b, rest)
  | ts => .error (mismatch ts)

def text : Reader String := fun _ ts =>
  match ts with
  | .text (.ok s) :: rest => .ok (s, rest)
  | ts => .error (mismatch ts)

def optional (r : Reader α) : Reader (Option α) := fun depth ts =>
  match ts with
  | .null :: rest => .ok (none, rest)
  | ts => r.map some depth ts

/-! ## Lists -/

/-- What stands where an element of a list may follow: the end of the list, or the tokens of the
next element. -/
def nextElement (first : Bool) (ts : List Token) : Except Flaw (Option (List Token)) :=
  match ts with
  | [] => .error .endsEarly
  | .listClose :: _ => .ok none
  | .comma :: rest =>
    if first then .ok (some ts)
    else
      match rest with
      | [] => .error .endsEarly
      | .listClose :: _ => .error .malformed
      | rest => .ok (some rest)
  | ts => if first then .ok (some ts) else .error .malformed

def endOfList : List Token → Except Flaw (List Token)
  | [] => .error .endsEarly
  | .listClose :: rest => .ok rest
  | _ => .error .malformed

theorem length_of_nextElement {first : Bool} {ts rest : List Token}
    (h : nextElement first ts = .ok (some rest)) : rest.length ≤ ts.length := by
  unfold nextElement at h
  grind

/-- Reads the elements of a list up to its end. A reader that takes no token ends the text. -/
def elements (item : Reader α) (depth : Nat) (first : Bool) (ts : List Token) :
    Except Flaw (List α × List Token) :=
  match hnext : nextElement first ts with
  | .error f => .error f
  | .ok none => (endOfList ts).map fun rest => ([], rest)
  | .ok (some start) =>
    match item depth start with
    | .error f => .error f
    | .ok (a, rest) =>
      if _ : rest.length < start.length then
        have := length_of_nextElement hnext
        (elements item depth false rest).map fun (as, rest) => (a :: as, rest)
      else .error .endsEarly
termination_by ts.length

def list (item : Reader α) : Reader (List α) := fun depth ts =>
  match ts, depth with
  | .listOpen :: _, 0 => .error .malformed
  | .listOpen :: rest, depth + 1 => elements item depth true rest
  | ts, _ => .error (mismatch ts)

/-- Reads the next element of a list of fixed length, which has to be there. -/
def element (r : Reader α) (first : Bool) : Reader α := fun depth ts =>
  match nextElement first ts with
  | .error f => .error f
  | .ok none => .error .wrongShape
  | .ok (some start) => r depth start

def pair (a : Reader α) (b : Reader β) : Reader (α × β) := fun depth ts =>
  match ts, depth with
  | .listOpen :: _, 0 => .error .malformed
  | .listOpen :: rest, depth + 1 => do
    let (x, rest) ← a.element true depth rest
    let (y, rest) ← b.element false depth rest
    let rest ← endOfList rest
    return ((x, y), rest)
  | ts, _ => .error (mismatch ts)

def triple (a : Reader α) (b : Reader β) (c : Reader γ) : Reader (α × β × γ) := fun depth ts =>
  match ts, depth with
  | .listOpen :: _, 0 => .error .malformed
  | .listOpen :: rest, depth + 1 => do
    let (x, rest) ← a.element true depth rest
    let (y, rest) ← b.element false depth rest
    let (z, rest) ← c.element false depth rest
    let rest ← endOfList rest
    return ((x, y, z), rest)
  | ts, _ => .error (mismatch ts)

/-! ## Objects -/

def memberName : List Token → Except Flaw (String × List Token)
  | .text (.ok s) :: rest => .ok (s, rest)
  | .text (.error f) :: _ => .error f
  | .broken true reading _ :: _ => .error reading
  | _ => .error .malformed

/-- Reads what stands where a member of an object may follow: its name, or the end. -/
def nextMember (first : Bool) (ts : List Token) :
    Except Flaw (Option (String × List Token)) :=
  match ts with
  | [] => .error .endsEarly
  | .objectClose :: _ => .ok none
  | .comma :: rest =>
    if first then .error .malformed
    else
      match rest with
      | [] => .error .endsEarly
      | rest => (memberName rest).map some
  | ts => if first then (memberName ts).map some else .error .malformed

/-- Reads the colon between a name and its value. -/
def colon : List Token → Except Flaw (List Token)
  | [] => .error .endsEarly
  | .colon :: rest => .ok rest
  | _ => .error .malformed

/-- Reads the members of an object up to its end, starting from the members before them. -/
def members (item : Reader α) (depth : Nat) (first : Bool) (before : List (String × α))
    (ts : List Token) : Except Flaw (List (String × α) × List Token) :=
  match nextMember first ts with
  | .error f => .error f
  | .ok none => .ok (before, ts.tail)
  | .ok (some (name, rest)) =>
    match colon rest with
    | .error f => .error f
    | .ok start =>
      match item depth start with
      | .error f => .error f
      | .ok (a, rest) =>
        if rest.length < ts.length then
          members item depth false (upsert name a before) rest
        else .error .endsEarly
termination_by ts.length

/-- Reads an object whose members all have one shape. -/
def object (item : Reader α) : Reader (List (String × α)) := fun depth ts =>
  match ts, depth with
  | .objectOpen :: _, 0 => .error .malformed
  | .objectOpen :: rest, depth + 1 => members item depth true [] rest
  | ts, _ => .error (mismatch ts)

/-- Reads any value whose lists and objects are nested at most `depth` deep. -/
def anyUpTo : Nat → List Token → Except Flaw (Value × List Token)
  | _, .null :: rest => .ok (.null, rest)
  | _, .bool b :: rest => .ok (.bool b, rest)
  | _, .number (.ok (.int n)) :: rest => .ok (.int n, rest)
  | _, .number (.ok (.float x)) :: rest => .ok (.float x, rest)
  | _, .text (.ok s) :: rest => .ok (.text s, rest)
  | depth + 1, .listOpen :: rest =>
    (elements (fun _ => anyUpTo depth) depth true rest).map fun (vs, rest) => (.list vs, rest)
  | depth + 1, .objectOpen :: rest =>
    (members (fun _ => anyUpTo depth) depth true [] rest).map
      fun (ms, rest) => (.object ms, rest)
  | 0, .listOpen :: _ => .error .malformed
  | 0, .objectOpen :: _ => .error .malformed
  | _, ts => .error (mismatch ts)

def any : Reader Value := anyUpTo

end Reader

/-! ## Skipped values -/

/-- What may stand next in a value that is skipped. -/
inductive Expected
  | value
  | valueOrClose
  | name
  | nameOrClose
  | colon
  | commaOrClose

/-- Where a skipped value stands: the lists and objects around the next token, the innermost
first and `true` for an object, and what may come next. -/
abbrev SkipState := List Bool × Expected

/-- The state behind a whole value inside `opened`; none if that was the value to skip. -/
def behindValue (opened : List Bool) : Option SkipState :=
  if opened.isEmpty then none else some (opened, .commaOrClose)

def skipValue (opened : List Bool) : Token → Except Flaw (Option SkipState)
  | .null | .bool _ | .number _ | .text _ => .ok (behindValue opened)
  | .listOpen => .ok (some (false :: opened, .valueOrClose))
  | .objectOpen => .ok (some (true :: opened, .nameOrClose))
  | .broken _ _ skipping => .error skipping
  | .comma | .colon | .listClose | .objectClose => .error .malformed

def skipName (opened : List Bool) : Token → Except Flaw (Option SkipState)
  | .text _ => .ok (some (opened, .colon))
  | .broken true _ skipping => .error skipping
  | _ => .error .malformed

def skipToken : SkipState → Token → Except Flaw (Option SkipState)
  | (opened, .value), t => skipValue opened t
  | (opened, .valueOrClose), .listClose => .ok (behindValue opened.tail)
  | (opened, .valueOrClose), t => skipValue opened t
  | (opened, .name), t => skipName opened t
  | (opened, .nameOrClose), .objectClose => .ok (behindValue opened.tail)
  | (opened, .nameOrClose), t => skipName opened t
  | (opened, .colon), .colon => .ok (some (opened, .value))
  | (false :: opened, .commaOrClose), .comma => .ok (some (false :: opened, .value))
  | (true :: opened, .commaOrClose), .comma => .ok (some (true :: opened, .name))
  | (false :: opened, .commaOrClose), .listClose => .ok (behindValue opened)
  | (true :: opened, .commaOrClose), .objectClose => .ok (behindValue opened)
  | _, _ => .error .malformed

def skipFrom (state : SkipState) : List Token → Except Flaw (List Token)
  | [] => .error .endsEarly
  | t :: ts =>
    match skipToken state t with
    | .error f => .error f
    | .ok none => .ok ts
    | .ok (some next) => skipFrom next ts

def skip (ts : List Token) : Except Flaw (List Token) :=
  skipFrom ([], .value) ts

/-! ## Records -/

/-- A field of a record that is filled in step by step. -/
structure RecordField (ρ : Type) where
  name : String
  /-- Reads the value of the field and sets it. -/
  read : Reader (ρ → ρ)
  /-- The field may be left out at the end of a record written as a list. -/
  mayEnd : Bool

namespace Reader

variable {ρ : Type}

/-- Reads the fields of a record written as an object. Members of other names are skipped, and a
field that is given twice spoils the shape. -/
def namedFields (fields : List (RecordField ρ)) (depth : Nat) (first : Bool) (seen : List String)
    (record : ρ) (ts : List Token) : Except Flaw (ρ × List Token) :=
  match nextMember first ts with
  | .error f => .error f
  | .ok none => .ok (record, ts.tail)
  | .ok (some (name, rest)) =>
    match fields.find? (·.name = name) with
    | some field =>
      if name ∈ seen then .error .wrongShape
      else
        match colon rest with
        | .error f => .error f
        | .ok start =>
          match field.read depth start with
          | .error f => .error f
          | .ok (set, rest) =>
            if rest.length < ts.length then
              namedFields fields depth false (name :: seen) (set record) rest
            else .error .endsEarly
    | none =>
      match colon rest with
      | .error f => .error f
      | .ok start =>
        match skip start with
        | .error f => .error f
        | .ok rest =>
          if rest.length < ts.length then
            namedFields fields depth false seen record rest
          else .error .endsEarly
termination_by ts.length

/-- Reads the fields of a record written as a list, in the order of the fields. -/
def listedFields (depth : Nat) : List (RecordField ρ) → Bool → ρ → List Token →
    Except Flaw (ρ × List Token)
  | [], _, record, ts => (endOfList ts).map fun rest => (record, rest)
  | field :: fields, first, record, ts =>
    match nextElement first ts with
    | .error f => .error f
    | .ok none =>
      if field.mayEnd then listedFields depth fields first record ts else .error .wrongShape
    | .ok (some start) =>
      match field.read depth start with
      | .error f => .error f
      | .ok (set, rest) => listedFields depth fields false (set record) rest

/-- Reads a record from an object or a list; `finish` finds out whether all fields that have to be
there are there. -/
def record {α : Type} (fields : List (RecordField ρ)) (blank : ρ) (finish : ρ → Option α) :
    Reader α := fun depth ts =>
  let result : Except Flaw (ρ × List Token) :=
    match ts, depth with
    | .objectOpen :: _, 0 => .error .malformed
    | .listOpen :: _, 0 => .error .malformed
    | .objectOpen :: rest, depth + 1 => namedFields fields depth true [] blank rest
    | .listOpen :: rest, depth + 1 => listedFields depth fields true blank rest
    | ts, _ => .error (mismatch ts)
  match result with
  | .error f => .error f
  | .ok (r, rest) =>
    match finish r with
    | some a => .ok (a, rest)
    | none => .error .wrongShape

end Reader

def parse {α : Type} (r : Reader α) (s : String) : Except Flaw α :=
  match r maxDepth (tokens s.toList) with
  | .error f => .error f
  | .ok (a, []) => .ok a
  | .ok (_, _ :: _) => .error .malformed

end Punctual.Json
